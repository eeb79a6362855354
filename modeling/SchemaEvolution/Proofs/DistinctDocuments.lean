import Mathlib
import SchemaEvolution.Source
import SchemaEvolution.Proofs.JsonEquality

/-! # Documents repeat no name

No object of a document that is loaded, from a JSON or a YAML text, has a name twice: a member that
comes again takes the place of the first.
-/

namespace SchemaEvolution

theorem foldlM_invariant {σ α : Type} {step : σ → α → Option σ} {P : σ → Prop} {Q : α → Prop}
    (keeps : ∀ state x next, step state x = some next → Q x → P state → P next) {list : List α}
    (each : ∀ x ∈ list, Q x) {start result : σ} (h : list.foldlM step start = some result)
    (holds : P start) : P result := by
  induction list generalizing start with
  | nil =>
      cases h
      exact holds
  | cons x rest ih =>
      obtain ⟨here, others⟩ := List.forall_mem_cons.mp each
      obtain ⟨next, stepped, further⟩ := Option.bind_eq_some_iff.mp h
      exact ih others further (keeps start x next stepped here holds)

namespace Json

/-- The members may make up an object: no name comes twice, and no object inside repeats one. -/
structure DistinctMembers (members : List (String × Json)) : Prop where
  names : (NameTable.names members).Nodup
  inner : ∀ member ∈ members, member.2.Distinct

namespace DistinctMembers

theorem nil : DistinctMembers [] := ⟨List.nodup_nil, List.forall_mem_nil _⟩

theorem object {members : List (String × Json)} (h : DistinctMembers members) :
    (Json.object members.reverse).Distinct := by
  refine .object ?_ fun member listed => h.inner member (List.mem_reverse.mp listed)
  rw [NameTable.names, List.map_reverse, List.nodup_reverse]
  exact h.names

theorem addMember {members : List (String × Json)} (h : DistinctMembers members) (name : String)
    {value : Json} (distinct : value.Distinct) :
    DistinctMembers (Machine.addMember members name value) := by
  unfold Machine.addMember
  split
  · constructor
    · have same : NameTable.names (members.map fun member =>
          if member.1 = name then (name, value) else member) = NameTable.names members := by
        rw [NameTable.names, NameTable.names, List.map_map]
        refine List.map_congr_left fun member _ => ?_
        simp only [Function.comp_apply]
        split
        · exact Eq.symm ‹_›
        · rfl
      rw [same]
      exact h.names
    · intro member listed
      obtain ⟨former, before, rfl⟩ := List.mem_map.mp listed
      split
      · exact distinct
      · exact h.inner former before
  · rename_i absent
    refine ⟨List.nodup_cons.mpr ⟨fun listed => absent ?_, h.names⟩,
      List.forall_mem_cons.mpr ⟨distinct, h.inner⟩⟩
    obtain ⟨member, before, same⟩ := List.mem_map.mp listed
    exact List.any_eq_true.mpr ⟨member, before, beq_iff_eq.mpr same⟩

end DistinctMembers

/-- The scalar of a token repeats no name. -/
def Token.Distinct : Token → Prop
  | .scalar value => value.Distinct
  | _ => True

def Frame.Distinct : Frame → Prop
  | .array elements => ∀ e ∈ elements, e.Distinct
  | .object members _ => DistinctMembers members

def Expecting.Distinct : Expecting → Prop
  | .name members | .colon members _ => DistinctMembers members
  | .afterValue read => read.Distinct
  | _ => True

structure Machine.Distinct (machine : Machine) : Prop where
  frames : ∀ frame ∈ machine.frames, frame.Distinct
  expecting : machine.expecting.Distinct

namespace Machine

variable {maxOpen : Option Nat}

theorem distinct_of_readValue {frames : List Frame} {token : Token} {next : Machine}
    (h : readValue maxOpen frames token = some next) (scalar : token.Distinct)
    (outer : ∀ frame ∈ frames, frame.Distinct) : next.Distinct := by
  unfold readValue at h
  split at h
  · cases h
    exact ⟨outer, .string _⟩
  · cases h
    exact ⟨outer, scalar⟩
  · unfold push at h
    split at h <;> cases h
    exact ⟨List.forall_mem_cons.mpr ⟨List.forall_mem_nil _, outer⟩, trivial⟩
  · unfold push at h
    split at h <;> cases h
    exact ⟨outer, trivial⟩
  · cases h

/-- What a step of the machine leaves repeats no name. -/
theorem distinct_of_step {machine next : Machine} {token : Token}
    (h : machine.step maxOpen token = some next) (scalar : token.Distinct) (start : machine.Distinct) :
    next.Distinct := by
  obtain ⟨frames, expecting⟩ := machine
  obtain ⟨outer, before⟩ := start
  dsimp only at outer before
  unfold step at h
  dsimp only at h
  split at h
  · split at h <;> cases h
    obtain ⟨inner, outer⟩ := List.forall_mem_cons.mp outer
    exact ⟨outer, .array fun e listed => inner e (List.mem_reverse.mp listed)⟩
  · exact distinct_of_readValue h scalar outer
  · exact distinct_of_readValue h scalar outer
  · cases h
    exact ⟨outer, DistinctMembers.nil.object⟩
  · cases h
    exact ⟨outer, .nil⟩
  · cases h
    exact ⟨outer, before⟩
  · cases h
    exact ⟨List.forall_mem_cons.mpr ⟨before, outer⟩, trivial⟩
  · -- A value is complete, and goes into the innermost of what is open.
    split at h <;> cases h
    all_goals obtain ⟨inner, outer⟩ := List.forall_mem_cons.mp outer
    · exact ⟨List.forall_mem_cons.mpr ⟨List.forall_mem_cons.mpr ⟨before, inner⟩, outer⟩, trivial⟩
    · refine ⟨outer, .array fun e listed => ?_⟩
      rcases List.mem_cons.mp (List.mem_reverse.mp listed) with rfl | listed
      · exact before
      · exact inner e listed
    · exact ⟨outer, DistinctMembers.addMember inner _ before⟩
    · exact ⟨outer, (DistinctMembers.addMember inner _ before).object⟩
  · cases h

end Machine

variable {double? : Decimal → Option Binary64}

theorem distinct_of_bareScalar? {text : List Char} {value : Json}
    (h : bareScalar? double? text = some value) : value.Distinct := by
  unfold bareScalar? at h
  split at h
  · cases h
    exact .bool _
  · cases h
    exact .bool _
  · cases h
    exact .null
  · obtain ⟨n, _, rfl⟩ := Option.map_eq_some_iff.mp h
    exact .number n

namespace Reading

def Distinct (reading : Reading) : Prop := ∀ token ∈ reading.found, token.Distinct

theorem distinct_of_begin {found : List Token} {c : Char} {next : Reading}
    (h : begin found c = some next) (before : ∀ token ∈ found, token.Distinct) : next.Distinct := by
  unfold begin at h
  split at h
  case h_7 =>
    cases h
    exact before
  case h_8 =>
    split at h
    · cases h
      exact before
    · split at h <;> cases h
      exact before
  all_goals
    cases h
    exact List.forall_mem_cons.mpr ⟨trivial, before⟩

theorem distinct_of_endBare {found tokens : List Token} {read : List Char}
    (h : endBare double? found read = some tokens) (before : ∀ token ∈ found, token.Distinct) :
    ∀ token ∈ tokens, token.Distinct := by
  obtain ⟨value, scalar, rfl⟩ := Option.map_eq_some_iff.mp h
  exact List.forall_mem_cons.mpr ⟨distinct_of_bareScalar? scalar, before⟩

theorem found_of_endUnit {found : List Token} {read : List Char} {high : Option Nat} {word : Nat}
    {next : Reading} (h : endUnit found read high word = some next) : next.found = found := by
  unfold endUnit at h
  split at h
  · obtain ⟨_, _, rfl⟩ := Option.map_eq_some_iff.mp h
    rfl
  · split at h
    · cases h
      rfl
    · split at h <;> cases h
      rfl

theorem distinct_of_step {reading next : Reading} {c : Char}
    (h : reading.step double? c = some next) (before : reading.Distinct) : next.Distinct := by
  unfold step at h
  dsimp only at h
  split at h
  · exact distinct_of_begin h before
  · split at h
    · cases h
      exact before
    · obtain ⟨tokens, ended, h⟩ := Option.bind_eq_some_iff.mp h
      exact distinct_of_begin h (distinct_of_endBare ended before)
  · split at h
    · cases h
      exact List.forall_mem_cons.mpr ⟨trivial, before⟩
    · split at h
      · cases h
        exact before
      · split at h <;> cases h
        exact before
  · split at h
    · cases h
      exact before
    · obtain ⟨_, _, rfl⟩ := Option.map_eq_some_iff.mp h
      exact before
  · split at h
    · obtain ⟨_, _, h⟩ := Option.bind_eq_some_iff.mp h
      rw [Distinct, found_of_endUnit h]
      exact before
    · cases h
      exact before
  all_goals
    split at h <;> cases h
    exact before

theorem distinct_of_finish {reading : Reading} {tokens : List Token}
    (h : reading.finish double? = some tokens) (before : reading.Distinct) :
    ∀ token ∈ tokens, token.Distinct := by
  intro token listed
  unfold finish at h
  split at h
  · cases h
    exact before token (List.mem_reverse.mp listed)
  · obtain ⟨found, ended, rfl⟩ := Option.map_eq_some_iff.mp h
    exact distinct_of_endBare ended before token (List.mem_reverse.mp listed)
  · cases h

end Reading

/-- The value of a JSON text repeats no name, whoever reads it. -/
theorem Reader.distinct_of_parse? {reader : Reader} {text : String} {value : Json}
    (h : reader.parse? text = some value) : value.Distinct := by
  obtain ⟨tokens, cut, h⟩ := Option.bind_eq_some_iff.mp h
  obtain ⟨reading, read, finished⟩ := Option.bind_eq_some_iff.mp cut
  obtain ⟨machine, ran, h⟩ := Option.bind_eq_some_iff.mp h
  have start : Reading.Distinct ⟨[], .nothing⟩ := List.forall_mem_nil _
  have reading := foldlM_invariant (fun _ _ _ step _ => Reading.distinct_of_step step)
    (fun _ _ => trivial) read start
  have tokens := Reading.distinct_of_finish finished reading
  have machine := foldlM_invariant (fun _ _ _ => Machine.distinct_of_step) tokens ran
    ⟨List.forall_mem_nil _, trivial⟩
  split at h <;> cases h
  exact machine.expecting

end Json

namespace Yaml

/-- Whatever is worked out has the property. -/
structure Yields {α : Type} (P : α → Prop) (work : Following α) : Prop where
  holds : ∀ left found rest, work left = some (found, rest) → P found

section Yields

variable {α β : Type} {P : α → Prop} {Q : β → Prop}

theorem Yields.pure {found : α} (h : P found) : Yields P (Pure.pure found) := by
  constructor
  rintro left _ rest ⟨⟩
  exact h

theorem Yields.lift {found : Option α} (h : ∀ x, found = some x → P x) :
    Yields P (StateT.lift found) := by
  constructor
  intro left x rest same
  obtain ⟨value, given, same⟩ := Option.bind_eq_some_iff.mp same
  cases same
  exact h _ given

theorem yields_none : Yields P (StateT.lift none) := by
  apply Yields.lift
  rintro x ⟨⟩

theorem Yields.bind {work : Following α} {next : α → Following β} (h : Yields P work)
    (further : ∀ x, P x → Yields Q (next x)) : Yields Q (work >>= next) := by
  constructor
  intro left found rest same
  obtain ⟨⟨x, middle⟩, before, after⟩ := Option.bind_eq_some_iff.mp same
  exact (further x (h.holds left x middle before)).holds middle found rest after

theorem yields_trivial (work : Following α) : Yields (fun _ => True) work :=
  ⟨fun _ _ _ _ => trivial⟩

theorem Yields.mapM {work : α → Following β} {list : List α} (h : ∀ x ∈ list, Yields Q (work x)) :
    Yields (fun results => ∀ y ∈ results, Q y) (list.mapM work) := by
  induction list with
  | nil => exact .pure (List.forall_mem_nil _)
  | cons x rest ih =>
      obtain ⟨here, others⟩ := List.forall_mem_cons.mp h
      rw [List.mapM_cons]
      apply Yields.bind here
      intro y hy
      apply Yields.bind (ih others)
      intro ys hys
      exact .pure (List.forall_mem_cons.mpr ⟨hy, hys⟩)

theorem Yields.foldlM {work : β → α → Following β} {list : List α}
    (h : ∀ y x, Q y → Yields Q (work y x)) {start : β} (holds : Q start) :
    Yields Q (list.foldlM work start) := by
  induction list generalizing start with
  | nil => exact .pure holds
  | cons x rest ih =>
      rw [List.foldlM_cons]
      apply Yields.bind (h start x holds)
      intro y hy
      exact ih hy

end Yields

theorem distinct_of_fraction? {text : List Char} {value : Json} (h : fraction? text = some value) :
    value.Distinct := by
  unfold fraction? at h
  split at h
  · cases h
    exact .null
  · obtain ⟨x, _, rfl⟩ := Option.map_eq_some_iff.mp h
    exact .number _

theorem distinct_of_whole? {text : List Char} {value : Json} (h : whole? text = some (some value)) :
    value.Distinct := by
  unfold whole? at h
  split at h
  · split at h
    · cases h
    · obtain ⟨n, _, rfl⟩ := Option.map_eq_some_iff.mp (Option.some_inj.mp h)
      exact .number n
  · cases h

theorem distinct_of_plainValue? {text : String} {value : Json} (h : plainValue? text = some value) :
    value.Distinct := by
  unfold plainValue? at h
  split at h
  · cases h
    exact .null
  · split at h
    · cases h
      exact .bool _
    · rename_i whole
      subst h
      exact distinct_of_whole? whole
    · split at h
      · cases h
        exact .string _
      · cases fraction : fraction? text.toList with
        | none =>
            rw [fraction] at h
            cases h
            exact .string _
        | some read =>
            rw [fraction] at h
            cases h
            exact distinct_of_fraction? fraction

theorem distinct_of_value? {text : String} {kind : ScalarKind} {value : Json}
    (h : kind.value? text = some value) : value.Distinct := by
  cases kind with
  | truth =>
      obtain ⟨b, _, rfl⟩ := Option.map_eq_some_iff.mp h
      exact .bool b
  | whole => exact distinct_of_whole? (Option.join_eq_some_iff.mp h)
  | fraction => exact distinct_of_fraction? h
  | null =>
      simp only [ScalarKind.value?] at h
      split at h <;> cases h
      exact .null

theorem distinct_of_scalarValue? {tag : Option Octets} {text : String} {isPlain : Bool}
    {value : Json} (h : scalarValue? tag text isPlain = some value) : value.Distinct := by
  unfold scalarValue? at h
  split at h
  · split at h
    · exact distinct_of_plainValue? h
    · cases h
      exact .string _
  · split at h
    · cases h
    · split at h
      · exact distinct_of_value? h
      · split at h
        · exact distinct_of_plainValue? h
        · cases h
          exact .string _

theorem yields_value (nodes : AnchoredNodes) (depth : Nat) (node : Tree Nat) :
    Yields Json.Distinct (value nodes depth node) := by
  induction depth generalizing node with
  | zero =>
      rw [value]
      apply Yields.bind (yields_trivial _)
      intro node _
      split
      · exact .lift fun _ => distinct_of_scalarValue?
      · exact yields_none
  | succ depth ih =>
      rw [value]
      apply Yields.bind (yields_trivial _)
      intro node _
      split
      · exact .lift fun _ => distinct_of_scalarValue?
      · split
        · apply Yields.bind (.mapM fun e _ => ih e)
          intro found distinct
          exact .pure (.array distinct)
        · exact yields_none
      · split
        · refine .bind (.foldlM ?_ Json.DistinctMembers.nil) fun _ distinct => .pure distinct.object
          intro members entry former
          apply Yields.bind (yields_trivial _)
          intro name _
          apply Yields.bind (ih entry.2)
          intro inner distinct
          exact .pure (former.addMember name distinct)
        · exact yields_none
      · exact yields_none

theorem distinct_of_parse? {text : String} {found : Json} (h : parse? text = some found) :
    found.Distinct := by
  obtain ⟨tokens, _, h⟩ := Option.bind_eq_some_iff.mp h
  obtain ⟨tree, _, h⟩ := Option.bind_eq_some_iff.mp h
  obtain ⟨⟨numbered, _⟩, _, h⟩ := Option.bind_eq_some_iff.mp h
  obtain ⟨⟨result, rest⟩, ran, same⟩ := Option.bind_eq_some_iff.mp h
  cases same
  exact (yields_value _ _ _).holds _ _ _ ran

end Yaml

theorem DocumentFormat.distinct_of_parse {text : String} {format : DocumentFormat} {document : Json}
    (h : format.parse text = .ok document) : document.Distinct := by
  unfold parse at h
  split at h
  · split at h <;> cases h
    exact Json.Reader.distinct_of_parse? ‹_›
  · split at h <;> cases h
    exact Yaml.distinct_of_parse? ‹_›

/-- No document that is loaded has an object that repeats a name. -/
theorem Source.distinct_of_load {reach : Reach} {source : Source} {document : Json}
    (h : source.load reach = .ok document) : document.Distinct := by
  unfold load at h
  split at h
  · split at h
    · cases h
    · split at h <;> cases h
      obtain ⟨_, _, parsed⟩ := Option.bind_eq_some_iff.mp ‹_›
      exact Json.Reader.distinct_of_parse? parsed
  · exact DocumentFormat.distinct_of_parse h
  · split at h
    · cases h
    · cases h
    · exact DocumentFormat.distinct_of_parse h

end SchemaEvolution
