import Mathlib
import SchemaEvolution.Proofs.JsonEquality
import SchemaEvolution.Proofs.Pattern.InStep

/-! # The cut of a pattern

Nothing but the bars between branches is lost when a pattern is cut, and branches that the scan goes
over as a whole are found again between bars. In UTF-8 a branch is a run of the bytes of the pattern
that begins and ends between characters, as a bar is one byte.
-/

namespace SchemaEvolution

namespace Pattern

/-- The bytes that branches stand at, from the first one to the one behind the last, where the scan
goes on at the byte `here` in a branch that began at the byte `start`. -/
def spansFrom (scan : Scan) (start here : Nat) : List Char → List (Nat × Nat)
  | [] => [(start, here)]
  | c :: rest =>
    if scan.cutsAt c then
      (start, here) :: spansFrom (scan.next c) (here + 1) (here + c.utf8Size) rest
    else spansFrom (scan.next c) start (here + c.utf8Size) rest

/-- The bytes that the branches of a text stand at. -/
def spans (text : String) : List (Nat × Nat) := spansFrom .start 0 0 text.toList

/-- A part of a text stands at these bytes of it. -/
def StandsAt (text : List Char) (span : Nat × Nat) (part : List Char) : Prop :=
  ∃ before after, text = before ++ part ++ after ∧
    span = (String.utf8Len before, String.utf8Len before + String.utf8Len part)

/-- The scan goes over the text from its start and is there again behind it, and the text is cut
nowhere. -/
structure IsWhole (text : List Char) : Prop where
  along : Scan.start.along text = .start
  solid : Scan.start.cuts text = false

variable {text before part rest : List Char} {span : Nat × Nat}

section Standing

theorem isValid_utf8Len {body : String} {front back : List Char}
    (cut : body.toList = front ++ back) : String.Pos.Raw.IsValid body ⟨String.utf8Len front⟩ := by
  have parts : body = String.ofList front ++ String.ofList back := by
    rw [← String.ofList_append, ← cut, String.ofList_toList]
  rw [String.Pos.Raw.isValid_iff_exists_append]
  refine ⟨_, _, parts, ?_⟩
  rw [String.rawEndPos, String.utf8ByteSize_ofList]

theorem valid_of_standsAt {body : String} (stands : StandsAt body.toList span part) :
    String.Pos.Raw.IsValid body ⟨span.1⟩ ∧ String.Pos.Raw.IsValid body ⟨span.2⟩ ∧
      span.1 ≤ span.2 := by
  obtain ⟨before, after, whole, rfl⟩ := stands
  have first := isValid_utf8Len (whole.trans (List.append_assoc before part after))
  have last := isValid_utf8Len whole
  rw [String.utf8Len_append] at last
  exact ⟨first, last, Nat.le_add_right _ _⟩

theorem extract_of_standsAt {body : String} (stands : StandsAt body.toList span part) :
    String.Pos.Raw.extract body ⟨span.1⟩ ⟨span.2⟩ = String.ofList part := by
  obtain ⟨before, after, whole, rfl⟩ := stands
  rw [← String.ofList_toList (s := body), whole]
  exact String.extract_of_valid before part after

theorem map_extract_of_standsAt {body : String} {found : List (Nat × Nat)}
    {parts : List (List Char)} (stand : List.Forall₂ (StandsAt body.toList) found parts) :
    found.map (fun span => String.Pos.Raw.extract body ⟨span.1⟩ ⟨span.2⟩) =
      parts.map String.ofList := by
  induction stand with
  | nil => rfl
  | cons here _ ih => rw [List.map_cons, List.map_cons, ih, extract_of_standsAt here]

end Standing

/-- What has been read of the branch at hand goes before what is left of it, and each branch after it
begins behind the bar that ended the one before. -/
theorem standsAt_spansFrom {scan : Scan} {first : List Char} {others : List (List Char)}
    (whole : text = before ++ part ++ rest) (cut : branchesFrom scan rest = first :: others) :
    List.Forall₂ (StandsAt text)
      (spansFrom scan (String.utf8Len before) (String.utf8Len before + String.utf8Len part) rest)
      ((part ++ first) :: others) := by
  induction rest generalizing scan before part first others with
  | nil =>
      cases cut
      refine .cons ⟨before, [], ?_, ?_⟩ .nil
      · simpa using whole
      · simp
  | cons c rest ih =>
      obtain ⟨next, further, onward⟩ := exists_branchesFrom (scan.next c) rest
      rw [spansFrom]
      cases cuts : scan.cutsAt c with
      | true =>
          obtain rfl := bar_of_cutsAt cuts
          have bar : Char.utf8Size '|' = 1 := by decide
          simp only [branchesFrom, cuts, if_true, onward] at cut
          cases cut
          have later := @ih (before ++ part ++ ['|']) [] _ _ _ (by simp [whole]) onward
          refine .cons ⟨before, '|' :: rest, by simpa using whole, by simp⟩ ?_
          simpa [bar, Nat.add_assoc] using later
      | false =>
          rw [branchesFrom_cons scan c cuts onward] at cut
          cases cut
          have later := @ih before (part ++ [c]) _ _ _ (by simp [whole]) onward
          simpa [Nat.add_assoc] using later

theorem standsAt_spans (body : String) :
    List.Forall₂ (StandsAt body.toList) (spans body) (branches body.toList) := by
  obtain ⟨first, others, cut⟩ := exists_branchesFrom .start body.toList
  rw [branches, cut]
  exact @standsAt_spansFrom _ [] [] _ _ _ _ rfl cut

/-- Nothing is lost but the bars. -/
theorem intercalate_branchesFrom (scan : Scan) (text : List Char) :
    ['|'].intercalate (branchesFrom scan text) = text := by
  induction text generalizing scan with
  | nil => rfl
  | cons c rest ih =>
      obtain ⟨first, others, cut⟩ := exists_branchesFrom (scan.next c) rest
      have whole := ih (scan.next c)
      rw [cut] at whole
      cases cuts : scan.cutsAt c with
      | true =>
          obtain rfl := bar_of_cutsAt cuts
          simp only [branchesFrom, cuts, if_true, cut]
          rw [List.intercalate_cons_cons, whole]
          rfl
      | false =>
          rw [branchesFrom_cons scan c cuts cut]
          cases others with
          | nil => simpa using whole
          | cons second others =>
              rw [List.intercalate_cons_cons] at whole ⊢
              rw [← whole]
              simp

theorem IsWhole.branches_bar (whole : IsWhole text) :
    branches (text ++ '|' :: rest) = text :: branches rest := by
  have bar : branchesFrom .start ('|' :: rest) = [] :: branchesFrom .start rest := rfl
  rw [← whole.along] at bar
  have cut := branchesFrom_append whole.solid bar
  rw [whole.along, List.append_nil] at cut
  exact cut

theorem IsWhole.branches_self (whole : IsWhole text) : branches text = [text] := by
  have cut : branchesFrom .start (text ++ []) = (text ++ []) :: [] :=
    branchesFrom_append whole.solid rfl
  rwa [List.append_nil] at cut

theorem branches_intercalate {texts : List (List Char)} (nonempty : texts ≠ [])
    (whole : ∀ text ∈ texts, IsWhole text) : branches (['|'].intercalate texts) = texts := by
  induction texts with
  | nil => exact absurd rfl nonempty
  | cons text texts ih =>
      obtain ⟨here, later⟩ := List.forall_mem_cons.mp whole
      cases texts with
      | nil => simpa using here.branches_self
      | cons next texts =>
          rw [List.intercalate_cons_cons, List.append_assoc, List.singleton_append,
            here.branches_bar, ih (List.cons_ne_nil _ _) later]

/-- The branches of any pattern stand at bytes of it that begin and end between characters, and
joined by bars they are the pattern. Texts that the scan goes over as a whole are the branches of what
they are joined to. -/
theorem branches_joined_by_bars (body : String) :
    (∀ span ∈ spans body, String.Pos.Raw.IsValid body ⟨span.1⟩ ∧
      String.Pos.Raw.IsValid body ⟨span.2⟩ ∧ span.1 ≤ span.2) ∧
    (spans body).map (fun span => String.Pos.Raw.extract body ⟨span.1⟩ ⟨span.2⟩) =
      (branches body.toList).map String.ofList ∧
    "|".intercalate ((branches body.toList).map String.ofList) = body ∧
    ∀ texts : List String, texts ≠ [] → (∀ text ∈ texts, IsWhole text.toList) →
      (branches ("|".intercalate texts).toList).map String.ofList = texts := by
  have stand := standsAt_spans body
  refine ⟨?_, ?_, ?_, ?_⟩
  · intro span member
    obtain ⟨part, _, stands⟩ := exists_of_forall₂ stand.flip member
    exact valid_of_standsAt stands
  · exact map_extract_of_standsAt stand
  · rw [← String.toList_inj, String.toList_intercalate, List.map_map]
    have read : String.toList ∘ String.ofList = id := by
      funext text
      exact String.toList_ofList
    rw [read, List.map_id]
    exact intercalate_branchesFrom .start body.toList
  · intro texts nonempty whole
    have cut := @branches_intercalate (texts.map String.toList) (by simpa using nonempty)
      (List.forall_mem_map.mpr whole)
    rw [String.toList_intercalate]
    change (branches (['|'].intercalate _)).map String.ofList = texts
    rw [cut, List.map_map]
    apply List.map_id''
    intro text
    exact String.ofList_toList

/-- Bars behind a backslash, in a class and in a group, and characters of several bytes. -/
theorem branches_joined_by_bars_guarded :
    let texts := ["é\\|", "[|)]", "(ü|)", ""]
    texts ≠ [] ∧ (∀ text ∈ texts, IsWhole text.toList) ∧
      "|".intercalate texts = "é\\||[|)]|(ü|)|" ∧
      (branches "é\\||[|)]|(ü|)|".toList).map String.ofList = texts ∧
      spans "é\\||[|)]|(ü|)|" = [(0, 4), (5, 9), (10, 15), (16, 16)] ∧
      ∀ span ∈ spans "é\\||[|)]|(ü|)|",
        String.Pos.Raw.IsValid "é\\||[|)]|(ü|)|" ⟨span.1⟩ := by
  intro texts
  have nonempty : texts ≠ [] := by decide
  have whole : ∀ text ∈ texts, IsWhole text.toList := by
    simp only [texts, List.forall_mem_cons, List.not_mem_nil, false_imp_iff, implies_true, and_true]
    exact ⟨⟨by decide, by decide⟩, ⟨by decide, by decide⟩, ⟨by decide, by decide⟩,
      ⟨by decide, by decide⟩⟩
  have joined : "|".intercalate texts = "é\\||[|)]|(ü|)|" := by decide +kernel
  obtain ⟨valid, -, -, found⟩ := branches_joined_by_bars "é\\||[|)]|(ü|)|"
  refine ⟨nonempty, whole, joined, ?_, by decide +kernel, fun span member => (valid span member).1⟩
  rw [← joined]
  exact found texts nonempty whole

end Pattern

end SchemaEvolution
