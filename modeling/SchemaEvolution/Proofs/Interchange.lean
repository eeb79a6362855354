import Mathlib
import SchemaEvolution.Pattern.BestEffort
import SchemaEvolution.Proofs.Copies
import SchemaEvolution.Proofs.Mild

/-! # Baselines without a difference

Two schemas with no difference may still say different things in keywords that their types exclude.
A third schema that declares no types brings these keywords back into the comparison. Where that
does not happen, or both schemas say the same in them, either one may stand as the former schema of
a release.
-/

namespace SchemaEvolution

namespace Diff

/-- Wherever the walk to the new schema compares a family of keywords that the types of the former
one exclude, the two former schemas say the same in the family. -/
def HiddenAlike (old old' new : Node) : Prop :=
  ∀ path p p' q kind, Visits old new path p q → Visits old' new path p' q → Compared p q kind →
    p.constrains kind = false → p.LikeIn Node.Alike p' kind

variable {old old' new : Node}

theorem hiddenAlike_of_types
    (typed : ∀ path p q, Visits old new path p q → q.types = none → p.types = none) :
    HiddenAlike old old' new := by
  intro path p p' q kind visits _ compared hidden
  exfalso
  cases former : p.types with
  | none =>
      rw [Facets.constrains, former] at hidden
      cases hidden
  | some types =>
      cases latter : q.types with
      | none =>
          rw [typed path p q visits latter] at former
          cases former
      | some types' =>
          have same := compared.sameTypes types types' former latter
          have both : q.constrains kind = p.constrains kind := by
            rw [Facets.constrains, Facets.constrains, former, latter, same]
          have constrained := compared.constrained
          rw [both, hidden] at constrained
          simp at constrained

theorem HiddenAlike.below {steps : Path} {a a' b : Node} (h : HiddenAlike old old' new)
    (left : Descends old new steps a b) (right : Descends old' new steps a' b) :
    HiddenAlike a a' b := by
  intro path p p' q kind visits visits' compared hidden
  exact h (steps ++ path) p p' q kind (.further left visits) (.further right visits') compared hidden

/-- Accepted schemas that say the same as far as their types let a keyword constrain anything. -/
structure AcceptedAlike (old old' : Node) : Prop where
  left : old.Accepted
  right : old'.Accepted
  alike : old.Alike old'

theorem AcceptedAlike.likeIn {kind : Family} (h : AcceptedAlike old old')
    (like : old.LikeIn Node.Alike old' kind) : old.LikeIn AcceptedAlike old' kind := by
  apply like.imp
  intro a b ha hb alike
  exact ⟨h.left.below ha, h.right.below hb, alike⟩

theorem AcceptedAlike.abreast (h : AcceptedAlike old old') (accepted : new.Accepted)
    (hidden : HiddenAlike old old' new) :
    Abreast AcceptedAlike (fun a b => a.Accepted ∧ a = b) old old' new new where
  accepted := ⟨⟨h.left, h.right⟩, accepted, accepted⟩
  old := (Node.alike_iff.mp h.alike).shared
  new := .refl accepted.regular
  families kind compared := by
    have copies := Node.copies_self (V := fun _ => Eq) fun _ _ => rfl
    refine ⟨h.likeIn ?_, (copies.twins.twin ⟨accepted, rfl⟩).likeIn kind⟩
    cases constrained : old.constrains kind with
    | false =>
        exact hidden [] old old' new kind (.here old new) (.here old' new) compared constrained
    | true => exact (Node.alike_iff.mp h.alike).likeIn constrained

theorem verdict_diff_hiddenAlike {engine : RuleEngine} (h : AcceptedAlike old old')
    (accepted : new.Accepted) (hidden : HiddenAlike old old' new) :
    engine.verdict (old.diff new) = engine.verdict (old'.diff new) := by
  refine verdict_diff_of_abreast (R := AcceptedAlike) (S := fun a b => a.Accepted ∧ a = b)
    (P := fun x x' y y' => AcceptedAlike x x' ∧ y.Accepted ∧ y = y' ∧ HiddenAlike x x' y)
    (fun related => ⟨related.left, related.right⟩) (fun related => ⟨related.1, related.2 ▸ related.1⟩)
    ?_ ?_ ⟨h, accepted, rfl, hidden⟩
  · rintro x x' y _ ⟨alike, accepted, rfl, hidden⟩
    exact alike.abreast accepted hidden
  · rintro x x' y _ a a' b _ steps ⟨_, _, rfl, hidden⟩ left right alike ⟨accepted, rfl⟩
    exact ⟨alike, accepted, rfl, hidden.below left right⟩

end Diff

/-- For every rules and version a release from either one of two documents without a difference has
the same severity and next version, or fails with the same error, where the keywords that their
types hide are not compared or say the same. -/
theorem compare_of_diff_eq_nil {a a' b : Json} {x x' y : Node} (da : a.Distinct) (da' : a'.Distinct)
    (db : b.Distinct) (ha : Node.decode a = .ok x) (ha' : Node.decode a' = .ok x')
    (hb : Node.decode b = .ok y) (silent : x.diff x' = []) (hidden : Diff.HiddenAlike x x' y)
    (engine : RuleEngine) (version : Version) :
    (fun release => (release.severity, release.next)) <$> Release.compare engine a b version =
      (fun release => (release.severity, release.next)) <$>
        Release.compare engine a' b version := by
  have left := Node.accepted_of_decode da ha
  have right := Node.accepted_of_decode da' ha'
  have alike : Diff.AcceptedAlike x x' :=
    ⟨left, right, (Diff.diff_eq_nil_iff left right).mp silent⟩
  rw [Release.compare_conclude ha hb, Release.compare_conclude ha' hb,
    Diff.verdict_diff_hiddenAlike alike (Node.accepted_of_decode db hb) hidden]

/-- A limit on numbers comes to texts and is not compared when a limit on texts is raised. -/
theorem compare_of_diff_eq_nil_text :
    let limited := Json.object [("type", .string "string"), ("maximum", .number (.ofCount 3)),
      ("maxLength", .number (.ofCount 5))]
    let plain := Json.object [("type", .string "string"), ("maxLength", .number (.ofCount 5))]
    let longer := Json.object [("type", .string "string"), ("maxLength", .number (.ofCount 8))]
    ∃ x x', Node.decode limited = .ok x ∧ Node.decode plain = .ok x' ∧ x.diff x' = [] ∧
      ∀ engine version,
        (fun release => (release.severity, release.next)) <$>
            Release.compare engine limited longer version =
          (fun release => (release.severity, release.next)) <$>
            Release.compare engine plain longer version := by
  intro limited plain longer
  have distinct : limited.Distinct ∧ plain.Distinct ∧ longer.Distinct := by decide
  obtain ⟨x, x', hx, hx', silent⟩ : ∃ x x', Node.decode limited = .ok x ∧
      Node.decode plain = .ok x' ∧ x.diff x' = [] := ⟨_, _, rfl, rfl, by decide +kernel⟩
  obtain ⟨y, hy, typed, leaf⟩ : ∃ y, Node.decode longer = .ok y ∧ y.types = some [.string] ∧
      y.subSchemas = [.flag true] := ⟨_, rfl, rfl, rfl⟩
  have hidden : Diff.HiddenAlike x x' y := by
    refine Diff.hiddenAlike_of_types fun path p q visits untyped => ?_
    cases visits with
    | here => cases typed.symm.trans untyped
    | further step rest =>
        have below := step.below.2
        rw [Node.Below, leaf] at below
        cases List.mem_singleton.mp below
  exact ⟨x, x', hx, hx', silent, compare_of_diff_eq_nil distinct.1 distinct.2.1 distinct.2.2
    hx hx' hy silent hidden⟩

/-- With no types on the new side the hidden limit counts: raising it is an addition, while a limit
that comes is a revision. -/
theorem compare_of_hidden_limit :
    let engine : RuleEngine := { patterns := Pattern.bestEffort }
    let limited := Json.object [("type", .string "string"), ("maximum", .number (.ofCount 3))]
    let plain := Json.object [("type", .string "string")]
    let untyped := Json.object [("maximum", .number (.ofCount 5))]
    (∃ x x', Node.decode limited = .ok x ∧ Node.decode plain = .ok x' ∧ x.diff x' = []) ∧
      (∃ release, Release.compare engine limited untyped ⟨1, 0, 0⟩ = .ok release ∧
        release.severity = .addition ∧ release.next = ⟨1, 0, 1⟩) ∧
      ∃ release, Release.compare engine plain untyped ⟨1, 0, 0⟩ = .ok release ∧
        release.severity = .revision ∧ release.next = ⟨1, 1, 0⟩ := by
  intro engine limited plain untyped
  have raised : ((Release.compare engine limited untyped ⟨1, 0, 0⟩).toOption.any fun release =>
      release.severity == .addition && release.next == ⟨1, 0, 1⟩) = true := by
    decide +kernel
  have came : ((Release.compare engine plain untyped ⟨1, 0, 0⟩).toOption.any fun release =>
      release.severity == .revision && release.next == ⟨1, 1, 0⟩) = true := by
    decide +kernel
  obtain ⟨first, compared, outcome⟩ := Release.exists_of_any raised
  obtain ⟨second, compared', outcome'⟩ := Release.exists_of_any came
  simp only [Bool.and_eq_true, beq_iff_eq] at outcome outcome'
  refine ⟨⟨_, _, rfl, rfl, ?_⟩, ⟨first, compared, outcome⟩, ⟨second, compared', outcome'⟩⟩
  decide +kernel

end SchemaEvolution
