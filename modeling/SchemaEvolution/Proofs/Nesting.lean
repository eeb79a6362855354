import Mathlib
import SchemaEvolution.Proofs.Respelling

/-! # Schemas inside a document

A document with a hole in the place of a schema. What two schemas differ in does not depend on the
document around them: each outer of it keeps the difference and puts one step before its paths,
because nothing else in the outer tells a change and the walk comes to the hole once.
-/

namespace SchemaEvolution

namespace Json

/-- A hole for a schema in the value of a keyword, and the rest of that value. -/
inductive Hole where
  | property (before : List (String × Json)) (name : String) (after : List (String × Json))
  | items
  | itemsAt (before after : List Json)
  | prefixItemsAt (before after : List Json)
  | contains
  | additionalProperties

namespace Hole

def keyword : Hole → Keyword
  | .property .. => .properties
  | .items | .itemsAt .. => .items
  | .prefixItemsAt .. => .prefixItems
  | .contains => .contains
  | .additionalProperties => .additionalProperties

theorem ofName_keyword (hole : Hole) : Keyword.ofName hole.keyword.name = hole.keyword :=
  Keyword.ofName_name (by cases hole <;> rfl)

def fill : Hole → Json → Json
  | .property before name after, inner => .object (before ++ (name, inner) :: after)
  | .itemsAt before after, inner | .prefixItemsAt before after, inner =>
    .array (before ++ inner :: after)
  | .items, inner | .contains, inner | .additionalProperties, inner => inner

/-- The steps to the hole from the schema that has the keyword. -/
def steps : Hole → Path
  | .property _ name _ => [.property name]
  | .items => [.subSchema .items]
  | .itemsAt before _ => [.subSchema .items, .position before.length]
  | .prefixItemsAt before _ => [.subSchema .prefixItems, .position before.length]
  | .contains => [.subSchema .contains]
  | .additionalProperties => [.subSchema .additionalProperties]

end Hole

/-- A schema around a hole: its keywords before and after the one that has the hole. -/
structure Enclosure where
  before : List (String × Json)
  hole : Hole
  after : List (String × Json)

namespace Enclosure

def members (outer : Enclosure) (inner : Json) : List (String × Json) :=
  outer.before ++ (outer.hole.keyword.name, outer.hole.fill inner) :: outer.after

/-- No type is declared, or one whose values the keyword with the hole constrains. -/
def isOpen (outer : Enclosure) : Bool :=
  match NameTable.get? "type" (outer.before ++ outer.after) with
  | none => true
  | some declared => declared.names.any fun name =>
      (InstanceType.ofName? name).bind InstanceType.family? == outer.hole.keyword.family?

end Enclosure

/-- A document around a hole, from its root inwards. -/
abbrev Context := List Enclosure

namespace Context

def fill : Context → Json → Json
  | [], inner => inner
  | outer :: rest, inner => .object (outer.members (fill rest inner))

def path (context : Context) : Path := context.flatMap (·.hole.steps)

end Context

end Json

def CompareError.under (steps : Path) : CompareError → CompareError
  | .unclassified cause => .unclassified (cause.under steps)
  | error => error

theorem Release.conclude_under (version : Version) (steps : Path)
    (verdict : Except UnclassifiedError Severity) :
    conclude version (verdict.mapError (.under steps)) =
      (conclude version verdict).mapError (.under steps) := by
  cases verdict with
  | error cause => rfl
  | ok severity =>
      simp only [conclude, Except.mapError, bind, Except.bind]
      cases numbered : nextVersion version severity with
      | ok next => rfl
      | error cause =>
          cases cause with
          | unclassified => exact absurd numbered nextVersion_ne_unclassified
          | decode | version => rfl

section Middle

/-! Lists that differ in one element at most. -/

variable {α : Type} {before after : List (String × α)} {name other : String} {a : α}

theorem NameTable.get?_middle (distinct : (NameTable.names (before ++ (name, a) :: after)).Nodup) :
    NameTable.get? name (before ++ (name, a) :: after) = some a :=
  (NameTable.get?_eq_some_iff distinct).mpr (by simp)

theorem NameTable.get?_middle_of_ne (ne : other ≠ name) :
    NameTable.get? other (before ++ (name, a) :: after) =
      NameTable.get? other (before ++ after) := by
  induction before with
  | nil => simp [NameTable.get?, ne]
  | cons m rest ih =>
      simp only [List.cons_append, NameTable.get?]
      split
      · rfl
      · exact ih

theorem getElem?_middle_of_ne {β : Type} {first last : List β} {b b' : β} {index : Nat}
    (ne : index ≠ first.length) :
    (first ++ b :: last)[index]? = (first ++ b' :: last)[index]? := by
  induction first generalizing index with
  | nil =>
      cases index with
      | zero => exact absurd rfl ne
      | succ index => rfl
  | cons c rest ih =>
      cases index with
      | zero => rfl
      | succ index => simpa using ih (by simpa using ne)

theorem forall₂_middle {β : Type} {R : β → β → Prop} {first last : List β} {b b' : β}
    (each : ∀ c ∈ first ++ last, R c c) (inner : R b b') :
    List.Forall₂ R (first ++ b :: last) (first ++ b' :: last) := by
  rw [List.forall_mem_append] at each
  exact List.rel_append (List.forall₂_same.mpr each.1) (.cons inner (List.forall₂_same.mpr each.2))

end Middle

theorem Json.Shuffled.middle {R : String → Json → Json → Prop} {before after : List (String × Json)}
    {name : String} {a b : Json} (others : ∀ m ∈ before ++ after, R m.1 m.2 m.2)
    (inner : R name a b) :
    Shuffled R (before ++ (name, a) :: after) (before ++ (name, b) :: after) := by
  induction before with
  | nil =>
      change Shuffled R ((name, a) :: after) ([] ++ (name, b) :: after)
      exact .cons inner (.refl others)
  | cons m rest ih =>
      obtain ⟨head, others⟩ := List.forall_mem_cons.mp others
      change Shuffled R (m :: (rest ++ _)) ([] ++ m :: (rest ++ _))
      exact .cons head (ih others)

theorem SubSchema.eq_schema_of_toJson {sub : SubSchema} {members : List (String × Json)}
    (h : sub.toJson = .object members) :
    ∃ node, sub = .schema node ∧ node.source = .object members := by
  cases sub with
  | flag => cases h
  | schema node => exact ⟨node, rfl, h⟩

theorem SubSchema.slot_of_toJson {slots : List SubSchema} {before after : List Json}
    {members : List (String × Json)}
    (h : slots.map toJson = before ++ .object members :: after) :
    ∃ node, slots[before.length]? = some (.schema node) ∧ node.source = .object members := by
  have here : (slots.map toJson)[before.length]? = some (.object members) := by
    rw [h]
    simp
  rw [List.getElem?_map] at here
  obtain ⟨sub, found, filled⟩ := Option.map_eq_some_iff.mp here
  obtain ⟨node, rfl, source⟩ := eq_schema_of_toJson filled
  exact ⟨node, found, source⟩

namespace Node

variable {node child : Node} {outer : Json.Enclosure} {inner : List (String × Json)}

/-- The steps to the hole lead to the schema that fills it. -/
theorem ReadFrom.leads_of_hole (read : node.ReadFrom (outer.members (.object inner))) :
    ∃ child, node.Leads outer.hole.keyword outer.hole.steps child ∧
      child.source = .object inner := by
  obtain ⟨before, hole, after⟩ := outer
  have held := NameTable.get?_middle read.distinct.names
  cases hole with
  | property first name last =>
      rcases read.properties with ⟨absent, _⟩ | ⟨schemas, found, each⟩
      · cases held.symm.trans absent
      · cases held.symm.trans found
        have distinct := (read.distinct.member (NameTable.mem_of_get? held)).names
        have here := (each name).trans (NameTable.get?_middle distinct)
        obtain ⟨sub, listed, filled⟩ := Option.map_eq_some_iff.mp here
        obtain ⟨child, rfl, source⟩ := SubSchema.eq_schema_of_toJson filled
        exact ⟨child, .property (NameTable.mem_of_get? listed), source⟩
  | items =>
      obtain ⟨items, found, filled⟩ := Option.map_eq_some_iff.mp (read.items.trans held)
      cases items with
      | single sub =>
          obtain ⟨child, rfl, source⟩ := SubSchema.eq_schema_of_toJson filled
          exact ⟨child, .items found, source⟩
      | tuple => cases filled
  | itemsAt first last =>
      obtain ⟨items, found, filled⟩ := Option.map_eq_some_iff.mp (read.items.trans held)
      cases items with
      | single sub =>
          have accepted := read.accepted.subSchemas sub
            (mem_subSchemas_of_items found (List.mem_singleton.mpr rfl))
          have none := SubSchema.elements?_toJson accepted
          rw [show sub.toJson = _ from filled] at none
          cases none
      | tuple slots =>
          obtain ⟨child, slot, source⟩ := SubSchema.slot_of_toJson (Json.array.inj filled)
          exact ⟨child, .itemsAt found slot, source⟩
  | prefixItemsAt first last =>
      obtain ⟨slots, found, filled⟩ := Option.map_eq_some_iff.mp (read.prefixItems.trans held)
      obtain ⟨child, slot, source⟩ := SubSchema.slot_of_toJson (Json.array.inj filled)
      exact ⟨child, .prefixItemsAt found slot, source⟩
  | contains =>
      obtain ⟨sub, found, filled⟩ := Option.map_eq_some_iff.mp (read.contains.trans held)
      obtain ⟨child, rfl, source⟩ := SubSchema.eq_schema_of_toJson filled
      exact ⟨child, .contains found, source⟩
  | additionalProperties =>
      have filled := read.additionalProperties.trans (congrArg (Option.getD · _) held)
      obtain ⟨child, found, source⟩ := SubSchema.eq_schema_of_toJson filled
      exact ⟨child, .additionalProperties found, source⟩

end Node

/-- What the steps lead to in the value of a keyword. -/
def Json.follow : Path → Json → Option Json
  | [.property name], value => value.member? name
  | [.subSchema _, .position index], value => value.elements?.bind (·[index]?)
  | [.subSchema _], value => some value
  | _, _ => none

namespace Node

variable {node child : Node} {keyword : Keyword} {steps : Path}

theorem Leads.isRecognized (leads : node.Leads keyword steps child) :
    keyword.isRecognized = true := by
  cases leads <;> rfl

/-- The document of a schema further down stands in the value of the keyword that leads there. -/
theorem ReadFrom.follow_of_leads {members : List (String × Json)} (read : node.ReadFrom members)
    (leads : node.Leads keyword steps child) :
    ∃ argument, NameTable.get? keyword.name members = some argument ∧
      argument.follow steps = some child.source := by
  cases leads with
  | @property name child listed =>
      have held := (NameTable.get?_eq_some_iff read.accepted.properties_ordered.nodup).mpr listed
      rcases read.properties with ⟨_, empty⟩ | ⟨schemas, found, each⟩
      · rw [empty] at held
        cases held
      · refine ⟨_, found, ?_⟩
        rw [Json.follow, Json.member?, ← each name, held]
        rfl
  | items found => exact ⟨_, read.items.symm.trans (by rw [found]; rfl), rfl⟩
  | itemsAt found slot =>
      refine ⟨_, read.items.symm.trans (by rw [found]; rfl), ?_⟩
      simp [Json.follow, Items.toJson, Json.elements?, slot, SubSchema.toJson]
  | prefixItemsAt found slot =>
      refine ⟨_, read.prefixItems.symm.trans (by rw [found]; rfl), ?_⟩
      simp [Json.follow, Json.elements?, slot, SubSchema.toJson]
  | contains found => exact ⟨_, read.contains.symm.trans (by rw [found]; rfl), rfl⟩
  | additionalProperties found =>
      have filled := read.additionalProperties
      obtain ⟨inner, below⟩ :=
        ReadFrom.of_accepted (read.accepted.below (below_of_additionalProperties found))
      rw [found, SubSchema.toJson, below.source] at filled
      cases held : NameTable.get? "additionalProperties" members with
      | none =>
          rw [held] at filled
          cases filled
      | some argument =>
          rw [held, Option.getD_some] at filled
          exact ⟨argument, held, congrArg some (filled.symm.trans below.source.symm)⟩

end Node

theorem Json.sameForm_refl {value : Json} (schema : Decode.IsSchema value) :
    value.SameForm value := by
  rcases Decode.isSchema_iff.mp schema with ⟨allowed, rfl⟩ | ⟨members, rfl, _⟩
  · exact .flag allowed
  · exact .object members members

namespace Json.Hole

variable {hole : Hole} {x y p q : Node} {steps : Path} {a b : List (String × Json)}

theorem source_eq_of_leads (hp : p.Accepted) (leads : x.Leads hole.keyword steps p)
    (aside : steps ≠ hole.steps) (left : (hole.fill (.object a)).follow steps = some p.source)
    (right : (hole.fill (.object b)).follow steps = some q.source) : p.source = q.source := by
  cases hole with
  | property first name last =>
      simp only [keyword, Hole.steps, fill] at leads aside left right
      cases leads with
      | @property other _ listed =>
          have ne : other ≠ name := fun same => aside (same ▸ rfl)
          simp only [follow, member?, NameTable.get?_middle_of_ne ne] at left right
          exact Option.some_inj.mp (left.symm.trans right)
  | items =>
      simp only [keyword, Hole.steps, fill] at leads aside left right
      cases leads with
      | items => exact absurd rfl aside
      | itemsAt => cases left
  | itemsAt first last =>
      simp only [keyword, Hole.steps, fill] at leads aside left right
      cases leads with
      | items =>
          obtain ⟨members, read⟩ := Node.ReadFrom.of_accepted hp
          rw [read.source] at left
          cases left
      | @itemsAt _ index _ _ _ =>
          have ne : index ≠ first.length := fun same => aside (same ▸ rfl)
          simp only [follow, elements?, Option.bind_some] at left right
          rw [getElem?_middle_of_ne ne] at left
          exact Option.some_inj.mp (left.symm.trans right)
  | prefixItemsAt first last =>
      simp only [keyword, Hole.steps, fill] at leads aside left right
      cases leads with
      | @prefixItemsAt _ index _ _ _ =>
          have ne : index ≠ first.length := fun same => aside (same ▸ rfl)
          simp only [follow, elements?, Option.bind_some] at left right
          rw [getElem?_middle_of_ne ne] at left
          exact Option.some_inj.mp (left.symm.trans right)
  | contains =>
      simp only [keyword, Hole.steps] at leads aside
      cases leads with
      | contains => exact absurd rfl aside
  | additionalProperties =>
      simp only [keyword, Hole.steps] at leads aside
      cases leads with
      | additionalProperties => exact absurd rfl aside

/-- Whatever fills the hole, the value of its keyword says the same but for the schema there. -/
theorem respells (readable : Decode.Readable hole.keyword (hole.fill (.object a))) :
    hole.keyword.Respells SameForm (hole.fill (.object a)) (hole.fill (.object b)) := by
  have inner : SameForm (.object a) (.object b) := .object a b
  cases hole with
  | property first name last =>
      obtain ⟨_, ⟨⟩, each⟩ := Decode.readable_properties.mp readable
      refine .properties (.middle (fun m listed => ?_) inner)
      exact sameForm_refl (each m (by simp at listed ⊢; tauto))
  | items => exact .schema (.inl rfl) inner
  | itemsAt first last =>
      have each := (Decode.readable_array_iff (.inl rfl)).mp readable
      refine .positions (.inl rfl) (forall₂_middle (fun e listed => ?_) inner)
      exact sameForm_refl (each e (by simp at listed ⊢; tauto))
  | prefixItemsAt first last =>
      have each := (Decode.readable_array_iff (.inr rfl)).mp readable
      refine .positions (.inr rfl) (forall₂_middle (fun e listed => ?_) inner)
      exact sameForm_refl (each e (by simp at listed ⊢; tauto))
  | contains => exact .schema (.inr (.inl rfl)) inner
  | additionalProperties => exact .schema (.inr (.inr rfl)) inner

end Json.Hole

namespace Json.Enclosure

variable {outer : Enclosure} {x y : Node} {a b : List (String × Json)}
  (left : x.ReadFrom (outer.members (.object a))) (right : y.ReadFrom (outer.members (.object b)))

include left right

theorem get?_respells (keyword : Keyword) (named : Keyword.ofName keyword.name = keyword) :
    Option.Rel (keyword.Respells SameForm)
      (NameTable.get? keyword.name (outer.members (.object a)))
      (NameTable.get? keyword.name (outer.members (.object b))) := by
  by_cases here : keyword.name = outer.hole.keyword.name
  · obtain rfl : keyword = outer.hole.keyword :=
      named.symm.trans ((congrArg _ here).trans outer.hole.ofName_keyword)
    have held := NameTable.get?_middle left.distinct.names
    have held' := NameTable.get?_middle right.distinct.names
    rw [members, members, held, held']
    exact .some (outer.hole.respells (left.readable named held))
  · have beside : NameTable.get? keyword.name (outer.members (.object a)) =
        NameTable.get? keyword.name (outer.members (.object b)) :=
      (NameTable.get?_middle_of_ne here).trans (NameTable.get?_middle_of_ne here).symm
    rw [← beside]
    exact left.respells_self (fun _ => sameForm_refl) named

theorem twin : x.Twin (Node.Over SameForm) y :=
  Node.twin_of_respells left right id (get?_respells left right) .flag

/-- Schemas that the walk comes to beside the hole are the same on both sides. -/
theorem eq_of_leads_aside {keyword : Keyword} {steps : Path} {p q : Node}
    (leads : x.Leads keyword steps p) (leads' : y.Leads keyword steps q)
    (aside : steps ≠ outer.hole.steps) : p = q := by
  have hp := left.accepted.below leads.below
  have hq := right.accepted.below leads'.below
  refine Node.Accepted.eq_of_source hp hq ?_
  obtain ⟨argument, held, followed⟩ := left.follow_of_leads leads
  obtain ⟨argument', held', followed'⟩ := right.follow_of_leads leads'
  by_cases here : keyword.name = outer.hole.keyword.name
  · obtain rfl : keyword = outer.hole.keyword := by
      rw [← Keyword.ofName_name leads.isRecognized, here, outer.hole.ofName_keyword]
    cases (NameTable.get?_middle left.distinct.names).symm.trans held
    cases (NameTable.get?_middle right.distinct.names).symm.trans held'
    exact Hole.source_eq_of_leads hp leads aside followed followed'
  · rw [members, NameTable.get?_middle_of_ne here] at held held'
    cases held.symm.trans held'
    exact Option.some_inj.mp (followed.symm.trans followed')

omit right in
theorem constrains_of_isOpen (opened : outer.isOpen = true) {kind : Family}
    (family : outer.hole.keyword.family? = some kind) : x.constrains kind = true := by
  have ne : "type" ≠ outer.hole.keyword.name := by
    cases outer.hole <;> simp [Hole.keyword, Keyword.name]
  refine left.constrains_of_declared fun declared found => ?_
  rw [members, NameTable.get?_middle_of_ne ne] at found
  simpa only [isOpen, found, family] using opened

theorem descends (opened : outer.isOpen = true) {p q : Node}
    (leads : x.Leads outer.hole.keyword outer.hole.steps p)
    (leads' : y.Leads outer.hole.keyword outer.hole.steps q) :
    Diff.Descends x y outer.hole.steps p q := by
  obtain ⟨kind, family⟩ : ∃ kind, outer.hole.keyword.family? = some kind := by
    cases outer.hole <;> exact ⟨_, rfl⟩
  refine ⟨_, kind, family, ⟨fun before after hb ha => ?_, .inl ?_⟩, leads, leads'⟩
  · exact Option.some_inj.mp (hb.symm.trans ((twin left right).types.trans ha))
  · exact constrains_of_isOpen left opened family

omit left right in
theorem distinct_of_members (outer : Enclosure) {inner : Json}
    (distinct : (Json.object (outer.members inner)).Distinct) : inner.Distinct := by
  obtain ⟨before, hole, after⟩ := outer
  have filled : (hole.fill inner).Distinct :=
    distinct.member (m := (hole.keyword.name, hole.fill inner)) (by simp [members])
  cases hole with
  | property first name last => exact filled.member (m := (name, inner)) (by simp)
  | itemsAt first last | prefixItemsAt first last => exact filled.elements inner (by simp)
  | items | contains | additionalProperties => exact filled

/-- The difference of two documents around one hole is the difference of what fills it, told from
the hole. -/
theorem diff_eq (opened : outer.isOpen = true) :
    ∃ p q : Node, p.Accepted ∧ q.Accepted ∧ p.source = .object a ∧ q.source = .object b ∧
      x.diff y = (p.diff q).map (Change.under outer.hole.steps) := by
  obtain ⟨p, leads, source⟩ := left.leads_of_hole
  obtain ⟨q, leads', source'⟩ := right.leads_of_hole
  have hp := left.accepted.below leads.below
  have hq := right.accepted.below leads'.below
  refine ⟨p, q, hp, hq, source, source', ?_⟩
  have distinct := left.accepted.properties_ordered.nodup
  have distinct' := right.accepted.properties_ordered.nodup
  have silent := (Diff.silent_findings left.accepted right.accepted).mpr (twin left right).like
  have member := Diff.mem_findings_of_descends distinct (descends left right opened leads leads')
  rw [Diff.diff_eq_findings]
  refine Diff.flatMap_findings_of_descent distinct distinct' member fun finding found other => ?_
  cases finding with
  | change told => cases silent _ found
  | descent steps p' q' =>
      obtain ⟨keyword, kind, _, _, hx, hy⟩ := Diff.descends_of_mem_findings found
      by_cases here : steps = outer.hole.steps
      · subst here
        have path : outer.hole.steps ++ [] = outer.hole.steps ++ [] := rfl
        obtain ⟨rfl, _⟩ := Diff.leads_unique distinct leads hx path
        obtain ⟨rfl, _⟩ := Diff.leads_unique distinct' leads' hy path
        exact absurd rfl other
      · obtain rfl := eq_of_leads_aside left right hx hy here
        have accepted := left.accepted.below hx.below
        rw [Diff.Finding.changes, (Diff.diff_eq_nil_iff accepted accepted).mpr (.refl accepted)]
        rfl

end Json.Enclosure

theorem Node.Accepted.decode {node : Node} (h : node.Accepted) :
    Node.decode node.source = .ok node := by
  obtain ⟨_, decoded⟩ := h
  rw [Decode.source_of_keywords decoded]
  exact Decode.keywords_at_any [] decoded

namespace Json.Context

theorem fill_object (context : Context) (inner : List (String × Json)) :
    ∃ members, context.fill (.object inner) = .object members := by
  cases context <;> exact ⟨_, rfl⟩

/-- The difference of what fills the hole is the difference of the documents, told from it. -/
theorem diff_fill {context : Context} (opened : ∀ outer ∈ context, outer.isOpen = true)
    {a b : List (String × Json)} {x y : Node} (da : (context.fill (.object a)).Distinct)
    (db : (context.fill (.object b)).Distinct)
    (hx : Node.decode (context.fill (.object a)) = .ok x)
    (hy : Node.decode (context.fill (.object b)) = .ok y) :
    ∃ p q, Node.decode (.object a) = .ok p ∧ Node.decode (.object b) = .ok q ∧
      x.diff y = (p.diff q).map (Change.under context.path) := by
  induction context generalizing x y with
  | nil => exact ⟨x, y, hx, hy, (List.map_id'' Change.under_nil _).symm⟩
  | cons outer rest ih =>
      obtain ⟨here, others⟩ := List.forall_mem_cons.mp opened
      obtain ⟨inner, filled⟩ := fill_object rest a
      obtain ⟨inner', filled'⟩ := fill_object rest b
      simp only [fill, filled, filled'] at da db hx hy ih
      obtain ⟨u, v, hu, hv, source, source', outside⟩ :=
        Enclosure.diff_eq ⟨da, [], hx⟩ ⟨db, [], hy⟩ here
      have decoded : Node.decode (.object inner) = .ok u := source ▸ hu.decode
      have decoded' : Node.decode (.object inner') = .ok v := source' ▸ hv.decode
      obtain ⟨p, q, hp, hq, inside⟩ :=
        ih others (outer.distinct_of_members da) (outer.distinct_of_members db) decoded decoded'
      refine ⟨p, q, hp, hq, ?_⟩
      rw [outside, inside, List.map_map]
      simp [path, Function.comp_def]

end Json.Context

/-- Around any hole that the walk comes to, two documents differ as what fills the hole does: the
changes are the same in the same order, told from the hole, and a release of the documents has the
same severity and next version, or fails with the same error, told from the hole. -/
theorem compare_fill {context : Json.Context} (opened : ∀ outer ∈ context, outer.isOpen = true)
    {a b : List (String × Json)} {x y : Node} (da : (context.fill (.object a)).Distinct)
    (db : (context.fill (.object b)).Distinct)
    (hx : Node.decode (context.fill (.object a)) = .ok x)
    (hy : Node.decode (context.fill (.object b)) = .ok y) :
    ∃ p q, Node.decode (.object a) = .ok p ∧ Node.decode (.object b) = .ok q ∧
      x.diff y = (p.diff q).map (Change.under context.path) ∧
      ∀ engine version,
        (fun release => (release.severity, release.next)) <$> Release.compare engine
            (context.fill (.object a)) (context.fill (.object b)) version =
          ((fun release => (release.severity, release.next)) <$>
            Release.compare engine (.object a) (.object b) version).mapError
              (.under context.path) := by
  obtain ⟨p, q, hp, hq, same⟩ := Json.Context.diff_fill opened da db hx hy
  refine ⟨p, q, hp, hq, same, fun engine version => ?_⟩
  rw [Release.compare_conclude hx hy, Release.compare_conclude hp hq, same,
    RuleEngine.verdict_under, Release.conclude_under]

/-- The second position of a property's items, where a limit is raised. -/
theorem compare_fill_position :
    let context : Json.Context :=
      [⟨[("type", .string "object")], .property [] "list" [("other", .bool false)], []⟩,
        ⟨[("minItems", .number (.ofCount 1))], .itemsAt [.bool true] [], []⟩]
    let old := [("maxLength", Json.number (.ofCount 5))]
    let new := [("maxLength", Json.number (.ofCount 8)), ("title", .string "Name")]
    ∃ x y p q, Node.decode (context.fill (.object old)) = .ok x ∧
      Node.decode (context.fill (.object new)) = .ok y ∧
      Node.decode (.object old) = .ok p ∧ Node.decode (.object new) = .ok q ∧
      x.diff y = (p.diff q).map
        (Change.under [.property "list", .subSchema .items, .position 1]) := by
  intro context old new
  have opened : ∀ outer ∈ context, outer.isOpen = true := by decide
  have before : (context.fill (.object old)).Distinct := by decide
  have after : (context.fill (.object new)).Distinct := by decide
  obtain ⟨p, q, hp, hq, same, _⟩ := compare_fill opened before after rfl rfl
  exact ⟨_, _, p, q, rfl, rfl, hp, hq, same⟩

end SchemaEvolution
