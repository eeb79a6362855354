import Mathlib
import SchemaEvolution.Proofs.JsonEquality
import SchemaEvolution.Proofs.NumberTexts

/-! # Values are read back from their text

A reader that goes to any depth, and takes each decimal for the double nearest to it, gets from the
text of a value that very value, if no object in it repeats a name. The text gives the tokens of the
value, and the tokens drive the machine to the value.
-/

namespace SchemaEvolution

namespace Json

section Tokens

variable {double? : Decimal → Option Binary64}

/-- What a text is cut into from where the reader is. -/
def Reading.outcome (double? : Decimal → Option Binary64) (reading : Reading) (text : List Char) :
    Option (List Token) :=
  (text.foldlM (Reading.step double?) reading).bind (Reading.finish double?)

theorem Reading.outcome_cons {reading : Reading} {c : Char} {text : List Char} :
    reading.outcome double? (c :: text) =
      (reading.step double? c).bind (outcome double? · text) := by
  rw [outcome, List.foldlM_cons]
  exact Option.bind_assoc _ _ _

/-- A reader between two tokens finds these next in the text, if what follows it is like that. -/
def Gives (double? : Decimal → Option Binary64) (Follows : List Char → Prop) (text : List Char)
    (tokens : List Token) : Prop :=
  ∀ found rest, Follows rest →
    Reading.outcome double? ⟨found, .nothing⟩ (text ++ rest) =
      Reading.outcome double? ⟨tokens.reverse ++ found, .nothing⟩ rest

/-- No bare scalar goes on here. -/
def Stops (rest : List Char) : Prop := ∀ c ∈ rest.head?, isBareChar c = false

/-- Anything may follow. -/
abbrev Anything (_ : List Char) : Prop := True

namespace Gives

variable {First Second : List Char → Prop} {text further : List Char} {tokens others : List Token}

theorem nil : Gives double? First [] [] := fun _ _ _ => rfl

theorem append (first : Gives double? First text tokens)
    (second : Gives double? Second further others)
    (follows : ∀ rest, Second rest → First (further ++ rest)) :
    Gives double? Second (text ++ further) (tokens ++ others) := by
  intro found rest after
  rw [List.append_assoc, first found (further ++ rest) (follows rest after), second _ rest after,
    List.reverse_append, List.append_assoc]

theorem weaken (h : Gives double? Anything text tokens) : Gives double? First text tokens :=
  fun found rest _ => h found rest trivial

theorem of_begin {c : Char} {tokens : List Token}
    (h : ∀ found, Reading.begin found c = some ⟨tokens.reverse ++ found, .nothing⟩) :
    Gives double? Anything [c] tokens := by
  intro found rest _
  rw [List.singleton_append, Reading.outcome_cons]
  exact congrArg (Option.bind · _) (h found)

theorem spaces {count : Nat} : Gives double? Anything (List.replicate count ' ') [] := by
  induction count with
  | zero => exact nil
  | succ count ih =>
      have space : Gives double? Anything [' '] [] := of_begin fun _ => rfl
      exact space.append ih fun _ _ => trivial

end Gives

/-! ### Strings -/

theorem hexWord?_hexDigit :
    ∀ n < 0x20, hexWord? '0' '0' (hexDigit (n / 16)) (hexDigit (n % 16)) = some n := by
  decide

theorem charOf?_toNat (c : Char) : Text.charOf? c.toNat = some c :=
  dif_pos c.valid

/-- A character of a string is read back from its escape. -/
theorem outcome_escapeChar {found : List Token} {read rest : List Char} (c : Char) :
    Reading.outcome double? ⟨found, .string read⟩ (escapeChar c ++ rest) =
      Reading.outcome double? ⟨found, .string (c :: read)⟩ rest := by
  unfold escapeChar
  split
  case h_8 =>
    rename_i quote backslash _ _ _ _ _
    split_ifs with control
    · have word := hexWord?_hexDigit c.toNat control
      generalize hexDigit (c.toNat / 16) = high, hexDigit (c.toNat % 16) = low at word
      calc Reading.outcome double? ⟨found, .string read⟩ (['\\', 'u', '0', '0', high, low] ++ rest)
          = Reading.outcome double? ⟨found, .unit read none [high, '0', '0']⟩ (low :: rest) := rfl
        _ = ((hexWord? '0' '0' high low).bind (Reading.endUnit found read none)).bind
              (Reading.outcome double? · rest) := Reading.outcome_cons
        _ = Reading.outcome double? ⟨found, .string (c :: read)⟩ rest := by
            rw [word, Option.bind_some, Reading.endUnit, charOf?_toNat]
            rfl
    · have plain : Reading.step double? ⟨found, .string read⟩ c =
          some ⟨found, .string (c :: read)⟩ := by
        simp only [Reading.step, if_neg quote, if_neg backslash, if_neg control]
      rw [List.singleton_append, Reading.outcome_cons, plain, Option.bind_some]
  all_goals rfl

theorem outcome_flatMap_escapeChar {found : List Token} {read rest : List Char}
    (text : List Char) :
    Reading.outcome double? ⟨found, .string read⟩ (text.flatMap escapeChar ++ rest) =
      Reading.outcome double? ⟨found, .string (text.reverse ++ read)⟩ rest := by
  induction text generalizing read with
  | nil => rfl
  | cons c text ih =>
      rw [List.flatMap_cons, List.append_assoc, outcome_escapeChar, ih, List.reverse_cons,
        List.append_assoc, List.singleton_append]

theorem gives_quote (s : String) : Gives double? Anything (quote s).toList [.text s] := by
  intro found rest _
  have text : (quote s).toList ++ rest =
      '"' :: (s.toList.flatMap escapeChar ++ '"' :: rest) := by
    simp [quote]
  calc Reading.outcome double? ⟨found, .nothing⟩ ((quote s).toList ++ rest)
      = Reading.outcome double? ⟨found, .string []⟩
          (s.toList.flatMap escapeChar ++ '"' :: rest) := by rw [text]; rfl
    _ = Reading.outcome double? ⟨found, .string s.toList.reverse⟩ ('"' :: rest) := by
        rw [outcome_flatMap_escapeChar, List.append_nil]
    _ = Reading.outcome double? ⟨.text (String.ofList s.toList.reverse.reverse) :: found, .nothing⟩
          rest := rfl
    _ = Reading.outcome double? ⟨.text s :: found, .nothing⟩ rest := by
        rw [List.reverse_reverse, String.ofList_toList]

/-! ### Bare scalars -/

theorem begin_of_isBareChar {found : List Token} {c : Char} (bare : isBareChar c = true) :
    Reading.begin found c = some ⟨found, .bare [c]⟩ := by
  have space : ¬isSpace c = true := by
    intro space
    rcases (by simpa [isSpace] using space : ((c = ' ' ∨ c = '\t') ∨ c = '\n') ∨ c = '\r')
      with ((rfl | rfl) | rfl) | rfl <;> cases bare
  unfold Reading.begin
  split
  case h_8 => rw [if_neg space, if_pos bare]
  all_goals cases bare

theorem outcome_bare {found : List Token} {read text rest : List Char}
    (bare : ∀ c ∈ text, isBareChar c = true) :
    Reading.outcome double? ⟨found, .bare read⟩ (text ++ rest) =
      Reading.outcome double? ⟨found, .bare (text.reverse ++ read)⟩ rest := by
  induction text generalizing read with
  | nil => rfl
  | cons c text ih =>
      obtain ⟨here, others⟩ := List.forall_mem_cons.mp bare
      rw [List.cons_append, Reading.outcome_cons, Reading.step]
      dsimp only
      rw [if_pos here, Option.bind_some, ih others, List.reverse_cons, List.append_assoc,
        List.singleton_append]

/-- A bare scalar ends where the text does, and where a character stands that is in none. -/
theorem outcome_endBare {found : List Token} {read rest : List Char} {value : Json}
    (scalar : bareScalar? double? read.reverse = some value) (stops : Stops rest) :
    Reading.outcome double? ⟨found, .bare read⟩ rest =
      Reading.outcome double? ⟨.scalar value :: found, .nothing⟩ rest := by
  have ended : Reading.endBare double? found read = some (.scalar value :: found) := by
    rw [Reading.endBare, scalar, Option.map_some]
  cases rest with
  | nil => exact congrArg (Option.map List.reverse) ended
  | cons c rest =>
      have other : isBareChar c = false := stops c rfl
      rw [Reading.outcome_cons, Reading.outcome_cons, Reading.step, Reading.step]
      dsimp only
      rw [if_neg (by rw [other]; exact Bool.false_ne_true), ended, Option.bind_some]

theorem gives_scalar {text : List Char} {value : Json} (bare : ∀ c ∈ text, isBareChar c = true)
    (nonempty : text ≠ []) (scalar : bareScalar? double? text = some value) :
    Gives double? Stops text [.scalar value] := by
  intro found rest stops
  cases text with
  | nil => exact absurd rfl nonempty
  | cons c text =>
      obtain ⟨here, others⟩ := List.forall_mem_cons.mp bare
      have first : Reading.step double? ⟨found, .nothing⟩ c = some ⟨found, .bare [c]⟩ :=
        begin_of_isBareChar here
      have whole : bareScalar? double? (text.reverse ++ [c]).reverse = some value := by
        rw [← List.reverse_cons, List.reverse_reverse]
        exact scalar
      rw [List.cons_append, Reading.outcome_cons, first, Option.bind_some, outcome_bare others,
        outcome_endBare whole stops]
      rfl

theorem gives_word {value : Json} (word : String) (bare : word.toList.all isBareChar = true)
    (nonempty : word.toList.isEmpty = false)
    (scalar : bareScalar? double? word.toList = some value) :
    Gives double? Stops word.toList [.scalar value] :=
  gives_scalar (List.all_eq_true.mp bare) (List.isEmpty_eq_false_iff.mp nonempty) scalar

/-! ### Arrays and objects -/

theorem toList_newline (level : Nat) :
    (newline level).toList = '\n' :: List.replicate (2 * level) ' ' := by
  simp [newline]

theorem gives_newline (level : Nat) : Gives double? Anything (newline level).toList [] := by
  have start : Gives double? Anything ['\n'] [] := .of_begin fun _ => rfl
  rw [toList_newline, ← List.singleton_append]
  exact start.append .spaces fun _ _ => trivial

theorem gives_intercalate {separator : List Char} {mark : Token} {texts : List String}
    {tokens : List (List Token)} (separates : Gives double? Anything separator [mark])
    (stops : ∀ rest, Stops (separator ++ rest))
    (each : List.Forall₂ (fun text tokens => Gives double? Stops text.toList tokens) texts tokens) :
    Gives double? Stops (separator.intercalate (texts.map String.toList))
      ([mark].intercalate tokens) := by
  induction each with
  | nil => exact .nil
  | cons first others ih =>
      cases others with
      | nil => simpa using first
      | cons second rest =>
          rw [List.map_cons, List.map_cons, List.intercalate_cons_cons, List.intercalate_cons_cons]
          have before := first.append separates fun rest _ => stops rest
          exact before.append ih fun _ _ => trivial

theorem gives_bracketed {left right : String} {opened closed : Token} {level : Nat}
    {texts : List String} {tokens : List (List Token)}
    (opens : Gives double? Anything left.toList [opened])
    (closes : Gives double? Anything right.toList [closed])
    (each : List.Forall₂ (fun text tokens => Gives double? Stops text.toList tokens) texts tokens) :
    Gives double? Anything (bracketed left right level texts).toList
      (opened :: [Token.comma].intercalate tokens ++ [closed]) := by
  unfold bracketed
  split
  · rename_i none
    cases each with
    | nil =>
        rw [String.toList_append]
        exact opens.append closes fun _ _ => trivial
    | cons => cases none
  · have start : Gives double? Anything ",".toList [.comma] := .of_begin fun _ => rfl
    have comma : Gives double? Anything ("," ++ newline (level + 1)).toList [.comma] := by
      rw [String.toList_append]
      exact start.append (gives_newline _) fun _ _ => trivial
    have stops : ∀ rest, Stops (("," ++ newline (level + 1)).toList ++ rest) := by
      intro rest
      rw [String.toList_append]
      rintro c ⟨⟩
      rfl
    have inner := gives_intercalate comma stops each
    rw [← String.toList_intercalate] at inner
    simp only [String.toList_append]
    have opened := opens.append (gives_newline (level + 1)) fun _ _ => trivial
    have filled := opened.append inner fun _ _ => trivial
    have margin : ∀ rest, Stops ((newline level).toList ++ rest) := by
      intro rest
      rw [toList_newline]
      rintro c ⟨⟩
      rfl
    have ended := filled.append (gives_newline level) fun rest _ => margin rest
    simpa using ended.append closes fun _ _ => trivial

theorem indentedElements_eq_map (level : Nat) (elements : List Json) :
    indentedElements level elements = elements.map (indented level) := by
  induction elements with
  | nil => rfl
  | cons element rest ih => rw [indentedElements, ih, List.map_cons]

theorem indentedMembers_eq_map (level : Nat) (members : List (String × Json)) :
    indentedMembers level members =
      members.map fun member => quote member.1 ++ ": " ++ indented level member.2 := by
  induction members with
  | nil => rfl
  | cons member rest ih => rw [indentedMembers, ih, List.map_cons]

mutual

def tokens : Json → List Token
  | .string s => [.text s]
  | .array elements =>
    .openArray :: [Token.comma].intercalate (elementTokens elements) ++ [.closeArray]
  | .object members =>
    .openObject :: [Token.comma].intercalate (memberTokens members) ++ [.closeObject]
  | value => [.scalar value]

def elementTokens : List Json → List (List Token)
  | [] => []
  | element :: rest => tokens element :: elementTokens rest

def memberTokens : List (String × Json) → List (List Token)
  | [] => []
  | (name, value) :: rest => (.text name :: .colon :: tokens value) :: memberTokens rest

end

theorem elementTokens_eq_map (elements : List Json) :
    elementTokens elements = elements.map tokens := by
  induction elements with
  | nil => rfl
  | cons element rest ih => rw [elementTokens, ih, List.map_cons]

theorem memberTokens_eq_map (members : List (String × Json)) :
    memberTokens members =
      members.map fun member => .text member.1 :: .colon :: tokens member.2 := by
  induction members with
  | nil => rfl
  | cons member rest ih => rw [memberTokens, ih, List.map_cons]

/-- The text of a value gives its tokens. -/
theorem gives_indented (value : Json) (level : Nat) :
    Gives Decimal.nearest? Stops (indented level value).toList value.tokens := by
  induction value using rec_strong generalizing level with
  | null => exact gives_word "null" rfl rfl rfl
  | bool b =>
      cases b with
      | true => exact gives_word "true" rfl rfl rfl
      | false => exact gives_word "false" rfl rfl rfl
  | number n =>
      exact gives_scalar (fun _ => isBareChar_of_mem_text) (text_ne_nil n) (bareScalar?_text n)
  | string s => exact (gives_quote s).weaken
  | array elements ih =>
      have each : List.Forall₂ (fun text tokens => Gives Decimal.nearest? Stops text.toList tokens)
          (indentedElements (level + 1) elements) (elementTokens elements) := by
        rw [indentedElements_eq_map, elementTokens_eq_map, List.forall₂_map_left_iff,
          List.forall₂_map_right_iff, List.forall₂_same]
        exact fun element member => ih element member (level + 1)
      exact (gives_bracketed (.of_begin fun _ => rfl) (.of_begin fun _ => rfl) each).weaken
  | object members ih =>
      have each : List.Forall₂ (fun text tokens => Gives Decimal.nearest? Stops text.toList tokens)
          (indentedMembers (level + 1) members) (memberTokens members) := by
        rw [indentedMembers_eq_map, memberTokens_eq_map, List.forall₂_map_left_iff,
          List.forall₂_map_right_iff, List.forall₂_same]
        intro member listed
        have colon : Gives Decimal.nearest? Anything ": ".toList [.colon] := by
          have mark : Gives Decimal.nearest? Anything [':'] [.colon] := .of_begin fun _ => rfl
          have space : Gives Decimal.nearest? Anything [' '] [] := .of_begin fun _ => rfl
          exact mark.append space fun _ _ => trivial
        have named := (gives_quote member.1).append colon fun _ _ => trivial
        have whole := named.append (ih member listed (level + 1)) fun _ _ => trivial
        simpa using whole
      exact (gives_bracketed (.of_begin fun _ => rfl) (.of_begin fun _ => rfl) each).weaken

end Tokens

section Run

variable {frames : List Frame} {rest : List Token}

/-- What the machine that goes to any depth makes of the tokens. -/
def Machine.run (machine : Machine) (tokens : List Token) : Option Machine :=
  tokens.foldlM (Machine.step none) machine

theorem Machine.run_cons {machine next : Machine} {token : Token}
    (h : machine.step none token = some next) : machine.run (token :: rest) = next.run rest := by
  rw [run, List.foldlM_cons, h]
  rfl

/-- Wherever a value is expected, its tokens are taken for it. -/
def IsTaken (value : Json) : Prop :=
  ∀ frames rest,
    Machine.run ⟨frames, .value⟩ (value.tokens ++ rest) =
      Machine.run ⟨frames, .afterValue value⟩ rest ∧
    Machine.run ⟨frames, .valueOrClose⟩ (value.tokens ++ rest) =
      Machine.run ⟨frames, .afterValue value⟩ rest

theorem intercalate_singleton_cons {α : Type} (separator : α) (first : List α)
    (others : List (List α)) :
    [separator].intercalate (first :: others) = first ++ others.flatMap (separator :: ·) := by
  induction others generalizing first with
  | nil => simp
  | cons second others ih =>
      rw [List.intercalate_cons_cons, ih, List.flatMap_cons, List.append_assoc,
        List.singleton_append, List.cons_append]

theorem run_elements {value : Json} {others read : List Json} (taken : ∀ e ∈ others, IsTaken e) :
    Machine.run ⟨.array read :: frames, .afterValue value⟩
        ((elementTokens others).flatMap (Token.comma :: ·) ++ .closeArray :: rest) =
      Machine.run ⟨frames, .afterValue (.array (read.reverse ++ value :: others))⟩ rest := by
  induction others generalizing read value with
  | nil =>
      have closed : Machine.step none ⟨.array read :: frames, .afterValue value⟩ .closeArray =
          some ⟨frames, .afterValue (.array (value :: read).reverse)⟩ := rfl
      rw [elementTokens, List.flatMap_nil, List.nil_append, Machine.run_cons closed,
        List.reverse_cons]
  | cons second others ih =>
      obtain ⟨here, further⟩ := List.forall_mem_cons.mp taken
      have comma : Machine.step none ⟨.array read :: frames, .afterValue value⟩ .comma =
          some ⟨.array (value :: read) :: frames, .value⟩ := rfl
      rw [elementTokens, List.flatMap_cons, List.cons_append, List.cons_append,
        Machine.run_cons comma, List.append_assoc, (here _ _).1, ih further, List.reverse_cons,
        List.append_assoc, List.singleton_append]

theorem addMember_of_nodup {read others : List (String × Json)} {name : String} {value : Json}
    (distinct : (NameTable.names (read.reverse ++ (name, value) :: others)).Nodup) :
    Machine.addMember read name value = (name, value) :: read := by
  have absent : ¬read.any (·.1 == name) = true := by
    intro present
    obtain ⟨former, listed, same⟩ := List.any_eq_true.mp present
    have before : name ∈ read.reverse.map Prod.fst :=
      List.mem_map.mpr ⟨former, List.mem_reverse.mpr listed, beq_iff_eq.mp same⟩
    rw [NameTable.names, List.map_append, List.map_cons, List.nodup_middle] at distinct
    exact (List.nodup_cons.mp distinct).1 (List.mem_append_left _ before)
  rw [Machine.addMember, if_neg absent]

theorem run_members {name : String} {value : Json} {others read : List (String × Json)}
    (taken : ∀ m ∈ others, IsTaken m.2)
    (distinct : (NameTable.names (read.reverse ++ (name, value) :: others)).Nodup) :
    Machine.run ⟨.object read name :: frames, .afterValue value⟩
        ((memberTokens others).flatMap (Token.comma :: ·) ++ .closeObject :: rest) =
      Machine.run ⟨frames, .afterValue (.object (read.reverse ++ (name, value) :: others))⟩
        rest := by
  have added := addMember_of_nodup distinct
  induction others generalizing read name value with
  | nil =>
      have closed :
          Machine.step none ⟨.object read name :: frames, .afterValue value⟩ .closeObject =
          some ⟨frames, .afterValue (.object (Machine.addMember read name value).reverse)⟩ := rfl
      rw [memberTokens, List.flatMap_nil, List.nil_append, Machine.run_cons closed, added,
        List.reverse_cons]
  | cons second others ih =>
      obtain ⟨here, further⟩ := List.forall_mem_cons.mp taken
      obtain ⟨next, inner⟩ := second
      have comma : Machine.step none ⟨.object read name :: frames, .afterValue value⟩ .comma =
          some ⟨frames, .name ((name, value) :: read)⟩ := by
        rw [← added]
        rfl
      have named : Machine.step none ⟨frames, .name ((name, value) :: read)⟩ (.text next) =
          some ⟨frames, .colon ((name, value) :: read) next⟩ := rfl
      have colon : Machine.step none ⟨frames, .colon ((name, value) :: read) next⟩ .colon =
          some ⟨.object ((name, value) :: read) next :: frames, .value⟩ := rfl
      have same : (((name, value) :: read).reverse ++ (next, inner) :: others) =
          read.reverse ++ (name, value) :: (next, inner) :: others := by
        rw [List.reverse_cons, List.append_assoc, List.singleton_append]
      rw [← same] at distinct ⊢
      simp only [memberTokens, List.flatMap_cons, List.cons_append, List.append_assoc]
      rw [Machine.run_cons comma, Machine.run_cons named, Machine.run_cons colon, (here _ _).1,
        ih further distinct (addMember_of_nodup distinct)]

theorem isTaken_of_distinct {value : Json} (distinct : value.Distinct) : IsTaken value := by
  induction value using rec_strong with
  | null | bool | number | string => exact fun _ _ => ⟨rfl, rfl⟩
  | array elements ih =>
      intro frames rest
      have opened (expecting : Expecting)
          (h : expecting = .value ∨ expecting = .valueOrClose) :
          Machine.run ⟨frames, expecting⟩ ((Json.array elements).tokens ++ rest) =
            Machine.run ⟨frames, .afterValue (.array elements)⟩ rest := by
        have start : Machine.step none ⟨frames, expecting⟩ .openArray =
            some ⟨.array [] :: frames, .valueOrClose⟩ := by
          rcases h with rfl | rfl <;> rfl
        rw [tokens, List.cons_append, List.cons_append, Machine.run_cons start]
        cases elements with
        | nil => rfl
        | cons first others =>
            have taken : ∀ e ∈ first :: others, IsTaken e :=
              fun e member => ih e member (distinct.elements e member)
            obtain ⟨here, further⟩ := List.forall_mem_cons.mp taken
            rw [elementTokens, intercalate_singleton_cons, List.append_assoc, List.append_assoc,
              (here _ _).2]
            exact run_elements further
      exact ⟨opened _ (.inl rfl), opened _ (.inr rfl)⟩
  | object members ih =>
      intro frames rest
      have opened (expecting : Expecting)
          (h : expecting = .value ∨ expecting = .valueOrClose) :
          Machine.run ⟨frames, expecting⟩ ((Json.object members).tokens ++ rest) =
            Machine.run ⟨frames, .afterValue (.object members)⟩ rest := by
        have start : Machine.step none ⟨frames, expecting⟩ .openObject =
            some ⟨frames, .nameOrClose⟩ := by
          rcases h with rfl | rfl <;> rfl
        rw [tokens, List.cons_append, List.cons_append, Machine.run_cons start]
        cases members with
        | nil => rfl
        | cons first others =>
            obtain ⟨name, value⟩ := first
            have taken : ∀ m ∈ (name, value) :: others, IsTaken m.2 :=
              fun m member => ih m member (distinct.member member)
            obtain ⟨here, further⟩ := List.forall_mem_cons.mp taken
            have named : Machine.step none ⟨frames, .nameOrClose⟩ (.text name) =
                some ⟨frames, .colon [] name⟩ := rfl
            have colon : Machine.step none ⟨frames, .colon [] name⟩ .colon =
                some ⟨.object [] name :: frames, .value⟩ := rfl
            rw [memberTokens, intercalate_singleton_cons, List.append_assoc, List.append_assoc,
              List.cons_append, List.cons_append, Machine.run_cons named, Machine.run_cons colon,
              (here _ _).1]
            exact run_members further distinct.names
      exact ⟨opened _ (.inl rfl), opened _ (.inr rfl)⟩

end Run

/-- The text of a value that repeats no name denotes the value to the exact reader, also as a line. -/
theorem parse?_pretty {value : Json} (distinct : value.Distinct) :
    Reader.exact.parse? (value.pretty ++ "\n") = some value := by
  have cut := gives_indented value 0 [] ['\n'] (by rintro c ⟨⟩; rfl)
  have ran := (isTaken_of_distinct distinct [] []).1
  rw [List.append_nil] at cut ran
  have line : (value.pretty ++ "\n").toList = (indented 0 value).toList ++ ['\n'] := by
    rw [String.toList_append]
    rfl
  have ended : Reading.outcome Decimal.nearest? ⟨value.tokens.reverse, .nothing⟩ ['\n'] =
      some value.tokens.reverse.reverse := rfl
  have tokens : tokens? Decimal.nearest? (value.pretty ++ "\n").toList = some value.tokens := by
    rw [line]
    exact cut.trans (ended.trans (congrArg some value.tokens.reverse_reverse))
  have machine : value.tokens.foldlM (Machine.step none) ⟨[], .value⟩ =
      some ⟨[], .afterValue value⟩ := ran
  unfold Reader.parse? Reader.exact
  dsimp only
  rw [tokens]
  exact congrArg (Option.bind · _) machine

end Json

end SchemaEvolution
