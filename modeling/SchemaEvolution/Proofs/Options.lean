import Mathlib
import SchemaEvolution.Proofs.Alike
import SchemaEvolution.Proofs.Visits

/-! # Options that come and go

Where the walk comes to two lists of options, it tells each option of one list that the other lacks,
as often as it is listed. So the order of options never counts, nor how often one is listed that
both sides have, and the lists are compared as sets where no other option is repeated.
-/

namespace SchemaEvolution

def Change.adds (option : Json) (change : Change) : Bool :=
  change.kind = .added && change.newValue.any (·.equivalent option)

def Change.removes (option : Json) (change : Change) : Bool :=
  change.kind = .removed && change.oldValue.any (·.equivalent option)

namespace Diff

/-- The walk comes to two schemas with those options, by that path. -/
def Enumerates (old new : Node) (path : Path) (before after : List Json) : Prop :=
  ∃ x y, Visits old new path x y ∧ x.enumeration = some before ∧ y.enumeration = some after

/-! ### Where options are told -/

def optionChanges (path : Path) (changes : List Change) : List Change :=
  changes.filter fun change => change.path = path ∧ change.keyword = .enum

section Walk

variable {old new x y : Node} {path steps : Path}

@[simp] theorem optionChanges_append (left right : List Change) :
    optionChanges path (left ++ right) = optionChanges path left ++ optionChanges path right :=
  List.filter_append ..

theorem optionChanges_flatMap (findings : List Finding) :
    optionChanges path (findings.flatMap Finding.changes) =
      findings.flatMap fun finding => optionChanges path finding.changes :=
  List.filter_flatMap ..

theorem optionChanges_eq_nil {changes : List Change}
    (other : ∀ change ∈ changes, change.path = path → change.keyword ≠ .enum) :
    optionChanges path changes = [] :=
  List.filter_eq_nil_iff.mpr fun change listed => by
    simpa using other change listed

theorem optionChanges_under (changes : List Change) :
    optionChanges (steps ++ path) (changes.map (Change.under steps)) =
      (optionChanges path changes).map (Change.under steps) := by
  rw [optionChanges, List.filter_map]
  refine congrArg _ (List.filter_congr fun change _ => decide_eq_decide.mpr ?_)
  simp [Change.under]

theorem path_of_mem_shared {before after : Facets} {change : Change}
    (member : change ∈ shared path before after) : change.path = path := by
  simp only [shared, extensions, List.mem_append] at member
  rcases member with (((metadata | extended) | typed) | options) | formatted
  · exact congrArg Change.path (mem_ofValues.mp (mem_scalars.mp metadata).2).2
  · exact congrArg Change.path (mem_ofValues.mp (mem_scalars.mp extended).2).2
  · exact congrArg Change.path (mem_ofValues.mp typed).2
  · exact congrArg Prod.fst (spot_of_mem_enumeration options)
  · exact congrArg Change.path (mem_ofValues.mp formatted).2

theorem keyword_ne_enum_of_mem_familyFindings {change : Change}
    (member : .change change ∈ familyFindings old new) : change.keyword ≠ .enum := by
  simp only [familyFindings, List.mem_append, List.mem_ite_nil_right, change_mem_told,
    mem_family] at member
  intro about
  rcases member with (((member | elements) | member) | members)
  · simp [about, Keyword.numericScalars, Keyword.stringScalars, Keyword.arrayScalars] at member
  · have among := keyword_of_mem_elementFindings elements.2
    simp [about] at among
  · simp [about, Keyword.objectScalars] at member
  · have among := keyword_of_mem_memberFindings members.2
    simp [about] at among

theorem optionChanges_shared (before after : Facets) :
    optionChanges [] (shared [] before after) =
      enumeration [] before.enumeration after.enumeration := by
  have single {keyword : Keyword} (ne : keyword ≠ .enum) :
      optionChanges [] (scalar [] before after keyword) = [] := by
    refine optionChanges_eq_nil fun change listed _ about => ne ?_
    exact ((mem_scalar keyword).mp listed).1.symm.trans about
  have metadata : optionChanges [] (scalars [] before after Keyword.metadata) = [] := by
    refine optionChanges_eq_nil fun change listed _ about => ?_
    have among := (mem_scalars.mp listed).1
    rw [about] at among
    exact absurd among (by decide)
  have extensions : optionChanges [] (extensions [] before after) = [] := by
    refine optionChanges_eq_nil fun change listed _ about => ?_
    obtain ⟨⟨name, named⟩, _⟩ := mem_extensions.mp listed
    cases about.symm.trans named
  have options : optionChanges [] (enumeration [] before.enumeration after.enumeration) =
      enumeration [] before.enumeration after.enumeration :=
    List.filter_eq_self.mpr fun change listed =>
      decide_eq_true (Prod.ext_iff.mp (spot_of_mem_enumeration listed))
  simp [shared, metadata, extensions, single, options]

theorem optionChanges_findings :
    (findings old new).flatMap (fun finding => optionChanges [] finding.changes) =
      enumeration [] old.enumeration new.enumeration := by
  have telling (changes : List Change) :
      (told changes).flatMap (fun finding => optionChanges [] finding.changes) =
        optionChanges [] changes := by
    rw [← optionChanges_flatMap]
    simp [told, List.flatMap_map, Finding.changes]
  rw [findings, List.flatMap_append, telling, optionChanges_shared, List.append_right_eq_self,
    List.flatMap_eq_nil_iff]
  intro finding listed
  rw [List.mem_ite_nil_left] at listed
  refine optionChanges_eq_nil fun change member here => ?_
  cases finding with
  | change told =>
      cases List.mem_singleton.mp member
      exact keyword_ne_enum_of_mem_familyFindings listed.2
  | descent steps a b =>
      have found : .descent steps a b ∈ findings old new := by
        rw [findings, if_neg listed.1]
        exact List.mem_append_right _ listed.2
      obtain ⟨_, _, _, _, leads, _⟩ := descends_of_mem_findings found
      obtain ⟨inner, _, rfl⟩ := List.mem_map.mp member
      exact absurd (List.append_eq_nil_iff.mp here).1 (leads_ne_nil leads)

/-- Further down, a place is told of by the schemas alone through which the walk comes to it. -/
theorem optionChanges_aside {a b : Node} {finding : Finding} (ho : old.Accepted) (hn : new.Accepted)
    (step : Descends old new steps a b) (found : finding ∈ findings old new)
    (other : finding ≠ .descent steps a b) :
    optionChanges (steps ++ path) finding.changes = [] := by
  obtain ⟨_, _, _, _, leads, leads'⟩ := step
  refine optionChanges_eq_nil fun change member here about => ?_
  cases finding with
  | change told =>
      cases List.mem_singleton.mp member
      rw [findings, List.mem_append, change_mem_told, List.mem_ite_nil_left] at found
      rcases found with shared | ⟨_, families⟩
      · rw [path_of_mem_shared shared] at here
        exact leads_ne_nil leads (List.append_eq_nil_iff.mp here.symm).1
      · exact keyword_ne_enum_of_mem_familyFindings families about
  | descent steps' a' b' =>
      obtain ⟨_, _, _, _, hx, hy⟩ := descends_of_mem_findings found
      obtain ⟨inner, _, rfl⟩ := List.mem_map.mp member
      obtain ⟨rfl, same⟩ := leads_unique ho.properties_ordered.nodup hx leads here
      obtain ⟨rfl, _⟩ := leads_unique hn.properties_ordered.nodup hy leads' here
      exact other (by rw [List.append_cancel_right (here.trans (congrArg _ same.symm))])

/-- Where the walk comes to two schemas, it compares their options and no others. -/
theorem Visits.optionChanges (visits : Visits old new path x y) (ho : old.Accepted)
    (hn : new.Accepted) :
    optionChanges path (old.diff new) =
      (enumeration [] x.enumeration y.enumeration).map (Change.under path) := by
  induction visits with
  | here old new =>
      rw [diff_eq_findings, optionChanges_flatMap, optionChanges_findings]
      exact (List.map_id'' Change.under_nil _).symm
  | @further old new a b x y steps path step rest ih =>
      have found := mem_findings_of_descends ho.properties_ordered.nodup step
      have below := ih (ho.below step.below.1) (hn.below step.below.2)
      rw [diff_eq_findings, optionChanges_flatMap,
        flatMap_findings_of_descent ho.properties_ordered.nodup hn.properties_ordered.nodup found
          fun _ => optionChanges_aside ho hn step,
        Finding.changes, optionChanges_under, below, List.map_map]
      simp [Function.comp_def]

end Walk

/-! ### How often an option is told -/

/-- No option is repeated that the others lack. -/
def Unrepeated (options others : List Json) : Prop :=
  (optionsMissing options others).Pairwise fun first second => first.equivalent second = false

instance (options others : List Json) : Decidable (Unrepeated options others) :=
  inferInstanceAs (Decidable (List.Pairwise _ _))

section Options

variable {options others options' others' : List Json} {option : Json}

theorem mem_optionsMissing : option ∈ optionsMissing options others ↔
    option ∈ options ∧ ∀ other ∈ others, other.equivalent option = false := by
  simp [optionsMissing]

/-- Of two options that are equal, the others lack both or neither. -/
theorem lacked_of_equivalent {twin : Json} (same : twin.equivalent option = true)
    (lacked : ∀ other ∈ others, other.equivalent option = false) :
    ∀ other ∈ others, other.equivalent twin = false := by
  intro other listed
  by_contra found
  have equal := Json.equivalent_trans (Bool.not_eq_false _ ▸ found) same
  exact Bool.false_ne_true ((lacked other listed).symm.trans equal)

theorem countP_optionsMissing (lacked : ∀ other ∈ others, other.equivalent option = false) :
    (optionsMissing options others).countP (·.equivalent option) =
      options.countP (·.equivalent option) := by
  rw [optionsMissing, List.countP_filter]
  refine List.countP_congr fun o listed => ?_
  simp only [Bool.and_eq_true, and_iff_left_iff_imp]
  intro same
  simpa using lacked_of_equivalent same lacked

theorem countP_optionsMissing_ite (regular : ∀ o ∈ options, o.Distinct)
    (distinct : option.Distinct) :
    (optionsMissing options others).countP (·.equivalent option) =
      if others.any (·.equivalent option) then 0 else options.countP (·.equivalent option) := by
  split
  case isTrue kept =>
    obtain ⟨other, there, equal⟩ := List.any_eq_true.mp kept
    refine List.countP_eq_zero.mpr fun o left same => ?_
    obtain ⟨listed, lacked⟩ := mem_optionsMissing.mp left
    have back := Json.equivalent_symm (regular o listed) distinct same
    exact Bool.false_ne_true ((lacked other there).symm.trans (Json.equivalent_trans equal back))
  case isFalse lacked => exact countP_optionsMissing (by simpa using lacked)

theorem Unrepeated.countP_eq_one (unrepeated : Unrepeated options others)
    (regular : ∀ o ∈ options, o.Distinct) (listed : option ∈ options)
    (lacked : ∀ other ∈ others, other.equivalent option = false) :
    (optionsMissing options others).countP (·.equivalent option) = 1 := by
  obtain ⟨before, after, split⟩ :=
    List.append_of_mem (mem_optionsMissing.mpr ⟨listed, lacked⟩)
  have among : ∀ o ∈ before ++ option :: after, o.Distinct := fun o member =>
    regular o (mem_optionsMissing.mp (split ▸ member)).1
  rw [Unrepeated, split, List.pairwise_append] at unrepeated
  obtain ⟨_, later, earlier⟩ := unrepeated
  have first : before.countP (·.equivalent option) = 0 :=
    List.countP_eq_zero.mpr fun o member => by simp [earlier o member]
  have last : after.countP (·.equivalent option) = 0 := by
    refine List.countP_eq_zero.mpr fun o member => ?_
    have apart := (List.pairwise_cons.mp later).1 o member
    rw [Json.equivalent_comm (among _ (by simp)) (among _ (by simp [member]))] at apart
    simp [apart]
  rw [split, List.countP_append, List.countP_cons, first, last,
    if_pos (Json.equivalent_refl (regular option listed))]

/-- Of several lists with the same options, one in which none is repeated has the fewest. -/
theorem length_le_of_covers (regular : ∀ o ∈ options, o.Distinct)
    (regular' : ∀ o ∈ options', o.Distinct)
    (apart : options.Pairwise fun first second => first.equivalent second = false)
    (covers : ∀ o ∈ options, ∃ other ∈ options', other.equivalent o = true) :
    options.length ≤ options'.length := by
  choose! image listed same using covers
  have nodup : (options.map image).Nodup := by
    refine List.pairwise_map.mpr (apart.imp_of_mem fun {p q} hp hq differ equal => ?_)
    have back := Json.equivalent_symm (regular' _ (listed p hp)) (regular p hp) (same p hp)
    have forth := equal ▸ same q hq
    exact Bool.false_ne_true (differ.symm.trans (Json.equivalent_trans back forth))
  have sub : options.map image ⊆ options' := by
    intro o member
    obtain ⟨p, hp, rfl⟩ := List.mem_map.mp member
    exact listed p hp
  simpa using (List.subperm_of_subset nodup sub).length_le

theorem optionsMissing_covers (here : Facets.SameOptions options options')
    (there : Facets.SameOptions others others') :
    ∀ o ∈ optionsMissing options others,
      ∃ twin ∈ optionsMissing options' others', twin.equivalent o = true := by
  intro o left
  obtain ⟨listed, lacked⟩ := mem_optionsMissing.mp left
  obtain ⟨twin, found, same⟩ := here.1 o listed
  refine ⟨twin, mem_optionsMissing.mpr ⟨found, fun other member => ?_⟩, same⟩
  obtain ⟨former, known, equal⟩ := there.2 other member
  by_contra kept
  have met := Json.equivalent_trans equal (Bool.not_eq_false _ ▸ kept)
  exact Bool.false_ne_true ((lacked_of_equivalent same lacked former known).symm.trans met)

/-- Two pairs of lists have the same options, and none of the lists repeats one that the other list
of its pair lacks. -/
structure SameSets (before after before' after' : List Json) : Prop where
  former : Facets.SameOptions before before'
  latter : Facets.SameOptions after after'
  came : Unrepeated after before ∧ Unrepeated after' before'
  went : Unrepeated before after ∧ Unrepeated before' after'

theorem length_optionsMissing_eq (regular : ∀ o ∈ options, o.Distinct)
    (regular' : ∀ o ∈ options', o.Distinct) (here : Facets.SameOptions options options')
    (there : Facets.SameOptions others others')
    (unrepeated : Unrepeated options others ∧ Unrepeated options' others') :
    (optionsMissing options others).length = (optionsMissing options' others').length := by
  have sub : ∀ o ∈ optionsMissing options others, o.Distinct := fun o left =>
    regular o (mem_optionsMissing.mp left).1
  have sub' : ∀ o ∈ optionsMissing options' others', o.Distinct := fun o left =>
    regular' o (mem_optionsMissing.mp left).1
  exact (length_le_of_covers sub sub' unrepeated.1 (optionsMissing_covers here there)).antisymm
    (length_le_of_covers sub' sub unrepeated.2 (optionsMissing_covers here.symm there.symm))

theorem length_optionsMissing_perm (here : options.Perm options') (there : others.Perm others') :
    (optionsMissing options others).length = (optionsMissing options' others').length := by
  have same : optionsMissing options' others = optionsMissing options' others' := by
    refine List.filter_congr fun o _ => congrArg not (Bool.eq_iff_iff.mpr ?_)
    simp [there.mem_iff]
  exact same ▸ (here.filter _).length_eq

end Options

/-- What is told of options where the walk comes to two lists of them. -/
theorem Enumerates.told {old new : Node} {path : Path} {before after : List Json}
    (enumerates : Enumerates old new path before after) (ho : old.Accepted) (hn : new.Accepted) :
    optionChanges path (old.diff new) =
      (optionsMissing after before).map (.memberAdded path .enum) ++
        (optionsMissing before after).map (.memberRemoved path .enum) := by
  obtain ⟨x, y, visits, hx, hy⟩ := enumerates
  simp [visits.optionChanges ho hn, hx, hy, enumeration, Function.comp_def]

theorem Enumerates.regular {old new : Node} {path : Path} {before after : List Json}
    (enumerates : Enumerates old new path before after) (ho : old.Accepted) (hn : new.Accepted) :
    (∀ o ∈ before, o.Distinct) ∧ ∀ o ∈ after, o.Distinct := by
  obtain ⟨x, y, visits, hx, hy⟩ := enumerates
  obtain ⟨accepted, accepted'⟩ := visits.accepted ho hn
  exact ⟨accepted.regular.enumeration _ hx, accepted'.regular.enumeration _ hy⟩

section Counts

variable (path : Path) (option : Json) (came went : List Json)

theorem countP_adds :
    (came.map (Change.memberAdded path .enum) ++
        went.map (Change.memberRemoved path .enum)).countP (Change.adds option) =
      came.countP (·.equivalent option) := by
  simp [List.countP_map, Change.adds, Function.comp_def, Change.memberAdded, Change.added,
    Change.memberRemoved, Change.removed]

theorem countP_removes :
    (came.map (Change.memberAdded path .enum) ++
        went.map (Change.memberRemoved path .enum)).countP (Change.removes option) =
      went.countP (·.equivalent option) := by
  simp [List.countP_map, Change.removes, Function.comp_def, Change.memberAdded, Change.added,
    Change.memberRemoved, Change.removed]

end Counts

end Diff

/-- The changes of options, for any two documents that denote schemas, where the walk comes to two
lists of them. They add the options of the new list that the old one lacks and remove those of the
old list that the new one lacks, each as often as it is listed; so an option that is not repeated is
told once. Their number is that of any other two documents that list the same options in another
order, and, if no missing option is repeated, of any other two that list the same options at all. -/
theorem diff_options {a b : Json} {old new : Node} (ha : a.Distinct) (hb : b.Distinct)
    (ho : Node.decode a = .ok old) (hn : Node.decode b = .ok new) {path : Path}
    {before after : List Json} (enumerates : Diff.Enumerates old new path before after) :
    Diff.optionChanges path (old.diff new) =
        (Diff.optionsMissing after before).map (.memberAdded path .enum) ++
          (Diff.optionsMissing before after).map (.memberRemoved path .enum) ∧
    (∀ option : Json, option.Distinct →
      (Diff.optionChanges path (old.diff new)).countP (Change.adds option) =
          (if before.any (·.equivalent option) then 0 else after.countP (·.equivalent option)) ∧
        (Diff.optionChanges path (old.diff new)).countP (Change.removes option) =
          if after.any (·.equivalent option) then 0 else before.countP (·.equivalent option)) ∧
    (Diff.Unrepeated after before → ∀ option ∈ after,
      (∀ other ∈ before, other.equivalent option = false) →
        (Diff.optionChanges path (old.diff new)).countP (Change.adds option) = 1) ∧
    (Diff.Unrepeated before after → ∀ option ∈ before,
      (∀ other ∈ after, other.equivalent option = false) →
        (Diff.optionChanges path (old.diff new)).countP (Change.removes option) = 1) ∧
    ∀ {a' b' : Json} {old' new' : Node} {path' : Path} {before' after' : List Json},
      a'.Distinct → b'.Distinct → Node.decode a' = .ok old' → Node.decode b' = .ok new' →
      Diff.Enumerates old' new' path' before' after' →
      before.Perm before' ∧ after.Perm after' ∨ Diff.SameSets before after before' after' →
      (Diff.optionChanges path (old.diff new)).length =
        (Diff.optionChanges path' (old'.diff new')).length := by
  have ho := Node.accepted_of_decode ha ho
  have hn := Node.accepted_of_decode hb hn
  have told := enumerates.told ho hn
  obtain ⟨regular, regular'⟩ := enumerates.regular ho hn
  rw [told]
  refine ⟨rfl, fun option distinct => ?times, ?came, ?went, ?number⟩
  case times =>
    rw [Diff.countP_adds, Diff.countP_removes]
    exact ⟨Diff.countP_optionsMissing_ite regular' distinct,
      Diff.countP_optionsMissing_ite regular distinct⟩
  case came =>
    intro unrepeated option listed lacked
    rw [Diff.countP_adds, unrepeated.countP_eq_one regular' listed lacked]
  case went =>
    intro unrepeated option listed lacked
    rw [Diff.countP_removes, unrepeated.countP_eq_one regular listed lacked]
  case number =>
    intro a' b' old' new' path' before' after' ha' hb' ho' hn' enumerates' same
    have ho' := Node.accepted_of_decode ha' ho'
    have hn' := Node.accepted_of_decode hb' hn'
    obtain ⟨other, other'⟩ := enumerates'.regular ho' hn'
    rw [enumerates'.told ho' hn']
    simp only [List.length_append, List.length_map]
    rcases same with ⟨former, latter⟩ | ⟨former, latter, came, went⟩
    · rw [Diff.length_optionsMissing_perm latter former,
        Diff.length_optionsMissing_perm former latter]
    · rw [Diff.length_optionsMissing_eq regular' other' latter former came,
        Diff.length_optionsMissing_eq regular other former latter went]

def sized (sizes : List String) : Json :=
  .object [("properties", .object [("size", .object [("enum", .array (sizes.map .string))])])]

theorem enumerates_sized (before after : List String) :
    ∃ old new, Node.decode (sized before) = .ok old ∧ Node.decode (sized after) = .ok new ∧
      Diff.Enumerates old new [.property "size"] (before.map .string) (after.map .string) := by
  refine ⟨_, _, rfl, rfl, _, _, .once ⟨.properties, .object, rfl, ⟨?_, .inl rfl⟩,
    .property List.mem_cons_self, .property List.mem_cons_self⟩, rfl, rfl⟩
  rintro _ _ ⟨⟩

/-- One size comes, one goes, and one that both sides have is listed twice; the same sizes in
another order, the one listed twice on the other side, give as many changes. -/
theorem diff_options_sized :
    ∃ old new old' new', Node.decode (sized ["S", "M", "M"]) = .ok old ∧
      Node.decode (sized ["M", "L"]) = .ok new ∧
      Node.decode (sized ["M", "S"]) = .ok old' ∧
      Node.decode (sized ["L", "M", "M"]) = .ok new' ∧
      Diff.optionChanges [.property "size"] (old.diff new) =
        [.memberAdded [.property "size"] .enum (.string "L"),
          .memberRemoved [.property "size"] .enum (.string "S")] ∧
      (Diff.optionChanges [.property "size"] (old.diff new)).countP
        (Change.adds (.string "L")) = 1 ∧
      (Diff.optionChanges [.property "size"] (old.diff new)).length =
        (Diff.optionChanges [.property "size"] (old'.diff new')).length := by
  obtain ⟨old, new, ho, hn, here⟩ := enumerates_sized ["S", "M", "M"] ["M", "L"]
  obtain ⟨old', new', ho', hn', there⟩ := enumerates_sized ["M", "S"] ["L", "M", "M"]
  have distinct : ∀ sizes ∈ [["S", "M", "M"], ["M", "L"], ["M", "S"], ["L", "M", "M"]],
      (sized sizes).Distinct := by decide
  have same : Diff.SameSets (["S", "M", "M"].map .string) (["M", "L"].map .string)
      (["M", "S"].map .string) (["L", "M", "M"].map .string) :=
    ⟨⟨by decide, by decide⟩, ⟨by decide, by decide⟩, ⟨by decide, by decide⟩,
      ⟨by decide, by decide⟩⟩
  obtain ⟨told, _, once, _, number⟩ := diff_options (distinct _ (by simp)) (distinct _ (by simp))
    ho hn here
  exact ⟨old, new, old', new', ho, hn, ho', hn', told, once same.came.1 (.string "L") (by simp)
    (by decide), number (distinct _ (by simp)) (distinct _ (by simp)) ho' hn' there (.inr same)⟩

/-- Where a missing option is repeated, it is told again, so that the lists are no longer compared
as sets. -/
theorem option_told_twice :
    ∃ old new, Node.decode (.object [("enum", .array [.string "S"])]) = .ok old ∧
      Node.decode (.object [("enum", .array [.string "S", .string "M", .string "M"])]) = .ok new ∧
      old.diff new = [.memberAdded [] .enum (.string "M"), .memberAdded [] .enum (.string "M")] ∧
      (old.diff new).countP (Change.adds (.string "M")) ≠ 1 :=
  ⟨_, _, rfl, rfl, rfl, by decide⟩

end SchemaEvolution
