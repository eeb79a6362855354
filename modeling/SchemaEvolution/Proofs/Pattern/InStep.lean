import Mathlib
import SchemaEvolution.Pattern.Branches
import SchemaEvolution.Proofs.Pattern.Actions

/-! # A scan in step with the reading

A pattern is cut into branches by a scan of its characters. The scan is in step with the reading if
it takes every piece of the pattern for what the reading takes it for: it is as deep in groups after
the piece, and it sees no bar in it but the bar that ends a branch.
-/

namespace SchemaEvolution

namespace Pattern

namespace Scan

/-- The scan outside of classes, with so many groups open. -/
def level (depth : Int) : Scan := { depth }

/-- The state after some more characters. -/
def along (scan : Scan) (text : List Char) : Scan := text.foldl next scan

/-- Whether a bar in the text would end a branch at some depth. -/
def seesBar (scan : Scan) : List Char → Bool
  | [] => false
  | c :: rest => (c == '|' && !scan.escaped && !scan.inClass) || (scan.next c).seesBar rest

/-- Whether some bar in the text ends a branch. -/
def cuts (scan : Scan) : List Char → Bool
  | [] => false
  | c :: rest => scan.cutsAt c || (scan.next c).cuts rest

theorem cuts_of_seesBar {scan : Scan} {text : List Char} (solid : scan.seesBar text = false) :
    scan.cuts text = false := by
  induction text generalizing scan with
  | nil => rfl
  | cons c rest ih =>
      obtain ⟨here, later⟩ := Bool.or_eq_false_iff.mp solid
      rw [cuts, cutsAt, here, ih later]
      rfl

def raise (depth : Int) (scan : Scan) : Scan := { scan with depth := scan.depth + depth }

theorem next_raise (scan : Scan) (depth : Int) (c : Char) :
    (scan.raise depth).next c = (scan.next c).raise depth := by
  unfold next raise
  split_ifs <;> simp only [Scan.mk.injEq, and_true]
  · omega
  · omega

theorem along_raise (scan : Scan) (depth : Int) (text : List Char) :
    (scan.raise depth).along text = (scan.along text).raise depth := by
  induction text generalizing scan with
  | nil => rfl
  | cons c rest ih =>
      change ((scan.raise depth).next c).along rest = _
      rw [next_raise]
      exact ih (scan.next c)

theorem seesBar_raise (scan : Scan) (depth : Int) (text : List Char) :
    (scan.raise depth).seesBar text = scan.seesBar text := by
  induction text generalizing scan with
  | nil => rfl
  | cons c rest ih =>
      rw [seesBar, seesBar, next_raise, ih]
      rfl

theorem along_level {piece : List Char} {change : Int}
    (scanned : start.along piece = level change) (depth : Int) :
    (level depth).along piece = level (depth + change) := by
  have deeper : level depth = start.raise depth := by simp [level, start, raise]
  rw [deeper, along_raise, scanned]
  simp only [level, raise, add_comm]

theorem seesBar_level (depth : Int) (piece : List Char) :
    (level depth).seesBar piece = start.seesBar piece := by
  have deeper : level depth = start.raise depth := by simp [level, start, raise]
  rw [deeper, seesBar_raise]

end Scan

section Cuts

theorem bar_of_cutsAt {scan : Scan} {c : Char} (cuts : scan.cutsAt c = true) : c = '|' := by
  simp only [Scan.cutsAt, Bool.and_eq_true, beq_iff_eq] at cuts
  exact cuts.1.1.1

theorem branchesFrom_cons (scan : Scan) (c : Char) {rest first : List Char}
    {others : List (List Char)} (uncut : scan.cutsAt c = false)
    (cut : branchesFrom (scan.next c) rest = first :: others) :
    branchesFrom scan (c :: rest) = (c :: first) :: others := by
  simp only [branchesFrom, uncut, cut, Bool.false_eq_true, if_false]

theorem branchesFrom_append {scan : Scan} {piece rest first : List Char}
    {others : List (List Char)} (solid : scan.cuts piece = false)
    (cut : branchesFrom (scan.along piece) rest = first :: others) :
    branchesFrom scan (piece ++ rest) = (piece ++ first) :: others := by
  induction piece generalizing scan with
  | nil => exact cut
  | cons c piece ih =>
      obtain ⟨here, later⟩ := Bool.or_eq_false_iff.mp solid
      exact branchesFrom_cons scan c here (ih later cut)

theorem exists_branchesFrom (scan : Scan) (text : List Char) :
    ∃ first others, branchesFrom scan text = first :: others := by
  cases text with
  | nil => exact ⟨_, _, rfl⟩
  | cons c rest =>
      rw [branchesFrom]
      split_ifs
      · exact ⟨_, _, rfl⟩
      · split
        · exact ⟨_, _, rfl⟩
        · exact ⟨_, _, rfl⟩

/-- The first branch stands at the front of the text, and a bar behind it if the text goes on. -/
theorem branchesFrom_front {scan : Scan} {text first : List Char} {others : List (List Char)}
    (cut : branchesFrom scan text = first :: others) :
    ∃ after, text = first ++ after ∧ (after = [] ∨ ∃ rest, after = '|' :: rest) := by
  induction text generalizing scan first others with
  | nil =>
      cases cut
      exact ⟨[], rfl, .inl rfl⟩
  | cons c rest ih =>
      cases cuts : scan.cutsAt c with
      | true =>
          simp only [branchesFrom, cuts, if_true] at cut
          cases cut
          exact ⟨c :: rest, rfl, .inr ⟨rest, by rw [bar_of_cutsAt cuts]⟩⟩
      | false =>
          obtain ⟨first', others', inner⟩ := exists_branchesFrom (scan.next c) rest
          rw [branchesFrom_cons scan c cuts inner] at cut
          cases cut
          obtain ⟨after, rfl, ends⟩ := ih inner
          exact ⟨after, rfl, ends⟩

theorem isBalancedFrom_append {scan : Scan} {piece rest : List Char}
    (balanced : isBalancedFrom scan (piece ++ rest) = true) :
    isBalancedFrom (scan.along piece) rest = true := by
  induction piece generalizing scan with
  | nil => exact balanced
  | cons c piece ih =>
      obtain ⟨-, onward⟩ := Bool.and_eq_true_iff.mp balanced
      exact ih onward

end Cuts

namespace Action

/-- How many more groups are open after an action. -/
def depthChange : Action → Int
  | .opens _ => 1
  | .closes => -1
  | _ => 0

/-- Whether blanks mean nothing after an action, if they meant something before it. -/
def ignores : Action → Bool
  | .opens kind => kind.ignores false
  | .directive change => change.ignores false
  | _ => false

/-- Whether the scan takes a piece for the action that it is. -/
def isScannedAs (piece : List Char) (action : Action) : Bool :=
  Scan.start.along piece == .level action.depthChange &&
    match action with
    | .bar => true
    | _ => !Scan.start.seesBar piece

end Action

/-- Whether the scan is in step with the reading for so many pieces. Where blanks mean nothing, it
is not: it looks into comments. -/
def inStepWithin : Nat → List Char → Bool
  | _, [] => true
  | 0, _ => false
  | fuel + 1, text =>
    match Action.read? false text with
    | none => false
    | some (action, rest) =>
      !action.ignores && action.isScannedAs (text.take (text.length - rest.length)) &&
        inStepWithin fuel rest

/-- Whether the scan takes every piece of a pattern for what it is. -/
def isInStep (text : List Char) : Bool := inStepWithin text.length text

theorem inStepWithin_reads {fuel : Nat} {text rest : List Char} {action : Action}
    (inStep : inStepWithin fuel text = true) (reads : Action.Reads false text action rest) :
    ∃ piece, text = piece ++ rest ∧ action.ignores = false ∧ action.isScannedAs piece = true ∧
      ∃ fuel', inStepWithin fuel' rest = true := by
  obtain ⟨⟨piece, rfl⟩, _⟩ := reads.suffix
  refine ⟨piece, rfl, ?_⟩
  have read := Action.reads_iff.mpr reads
  cases text : piece ++ rest with
  | nil =>
      rw [text] at read
      cases read
  | cons c after =>
      cases fuel with
      | zero =>
          rw [text] at inStep
          cases inStep
      | succ fuel =>
          have taken : (piece ++ rest).take ((piece ++ rest).length - rest.length) = piece := by
            simp
          rw [text] at inStep read taken
          rw [inStepWithin, read] at inStep
          · simp only [taken, Bool.and_eq_true, Bool.not_eq_true'] at inStep
            exact ⟨inStep.1.1, inStep.1.2, fuel, inStep.2⟩
          · simp

namespace Action

variable {piece : List Char} {action : Action}

theorem along_of_isScannedAs (scanned : action.isScannedAs piece = true) (depth : Int) :
    (Scan.level depth).along piece = .level (depth + action.depthChange) := by
  apply Scan.along_level
  exact beq_iff_eq.mp (Bool.and_eq_true_iff.mp scanned).1

theorem seesBar_of_isScannedAs (scanned : action.isScannedAs piece = true)
    (inner : action ≠ .bar) (depth : Int) : (Scan.level depth).seesBar piece = false := by
  rw [Scan.seesBar_level]
  have solid := (Bool.and_eq_true_iff.mp scanned).2
  cases action with
  | bar => exact absurd rfl inner
  | part | opens | closes | repeats | directive => exact Bool.not_eq_true' _ ▸ solid

/-- A piece that ends no branch of a level at hand belongs to the branch that goes on behind it. -/
theorem branchesFrom_piece {rest first after : List Char} {others : List (List Char)} {depth : Int}
    (reads : Reads false (piece ++ after) action after)
    (scanned : action.isScannedAs piece = true) (inner : depth = 0 → action ≠ .bar)
    (cut : branchesFrom (.level (depth + action.depthChange)) rest = first :: others) :
    branchesFrom (.level depth) (piece ++ rest) = (piece ++ first) :: others := by
  rw [← along_of_isScannedAs scanned] at cut
  by_cases bar : action = .bar
  · subst bar
    obtain rfl : piece = ['|'] := List.append_cancel_right reads.bar_inv
    have deep : (depth == 0) = false := by simpa using mt inner (by simp)
    apply branchesFrom_cons (.level depth) '|' ?_ cut
    simp [Scan.cutsAt, Scan.level, deep]
  · exact branchesFrom_append (Scan.cuts_of_seesBar (seesBar_of_isScannedAs scanned bar depth)) cut

end Action

end Pattern

end SchemaEvolution
