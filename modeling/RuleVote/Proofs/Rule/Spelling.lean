import RuleVote.Rule.Layout
import RuleVote.Proofs.Rule.Acceptance
/-!
# The layout of programs as a grammar of lines

How the lines of a program spell it, as an inductive relation between lists
of lines and blocks: a block at an indent is statements at that indent, a
conditional is a header line with its body for each branch, and a body
stands on the header line or, deeper, below it. Lines are put together by
appending, so each is used once and in order, and the relation has no
cursor and no lookahead.

`block_sound` and `block_complete` tie it to the reader. The reader decides
by the next line alone, so a statement is read back only in front of lines
that do not extend it (`EndsStatement`), and a block only in front of one
that is indented less (`EndsBlock`). Of the three readers a line passes
through as a statement, a branch and a body, each costs one unit of fuel,
which is where the factor three comes from.
-/

namespace RuleVote

namespace Layout

open Token Grammar

/-! ## Lines with a keyword -/

/-- A header line: its keyword, its condition and a colon, with `after`
behind it. -/
def Header (keyword : String) (content : List Char) (condition : Expr) (after : List Char) : Prop :=
  ∃ start stop, Keyword keyword content start ∧ Joined .or start condition stop ∧
    Gap stop (':' :: after)

/-- The header line of a last body. -/
def ElseHeader (content after : List Char) : Prop :=
  ∃ start, Keyword "else" content start ∧ Gap start (':' :: after)

/-- The reader finds a header if and only if the line spells one. -/
theorem header?_eq_some_iff {keyword : String} {content after : List Char} {condition : Expr} :
    header? keyword content = some (condition, after) ↔
      Header keyword content condition after := by
  simp only [header?, Option.bind_eq_bind, Option.bind_eq_some_iff, takeKeyword?_eq_some_iff]
  constructor
  · rintro ⟨start, hkeyword, ⟨e, stop⟩, hread, after', hcolon, heq⟩
    cases heq
    cases hexpr : takeExpression start with
    | error => rw [hexpr] at hread; cases hread
    | ok r =>
      rw [hexpr] at hread
      cases hread
      exact ⟨start, stop, hkeyword, joined_of_takeExpression hexpr,
        (takeMark?_eq_some_iff rfl).1 hcolon⟩
  · rintro ⟨start, stop, hkeyword, hjoined, hcolon⟩
    have hread := takeExpression_of_joined hjoined (ends_of_mark (.inr rfl) hcolon)
    exact ⟨start, hkeyword, (condition, stop), by rw [hread]; rfl, after,
      (takeMark?_eq_some_iff rfl).2 hcolon, rfl⟩

/-- The reader finds an else if and only if the line spells one. -/
theorem elseHeader?_eq_some_iff {content after : List Char} :
    elseHeader? content = some after ↔ ElseHeader content after := by
  simp only [elseHeader?, Option.bind_eq_bind, Option.bind_eq_some_iff, takeKeyword?_eq_some_iff,
    @takeMark?_eq_some_iff _ _ ':' rfl, ElseHeader]

/-- One line starts with one keyword at most. -/
theorem startsWith_eq_false {word word' : String} {content rest : List Char}
    (h : Keyword word content rest) (hword : WordShaped word.toList)
    (hword' : WordShaped word'.toList) (hne : word ≠ word') : startsWith word' content = false := by
  rw [startsWith, takeKeyword?_of_word ⟨hword, h⟩ hword' hne]
  rfl

/-- A line that gives a target starts with its keyword. -/
theorem keyword_of_returnTarget? {content : List Char} {target : ReturnTarget}
    (h : returnTarget? content = some target) : ∃ rest, Keyword "return" content rest := by
  simp only [returnTarget?, Option.bind_eq_bind, Option.bind_eq_some_iff] at h
  obtain ⟨rest, hreturn, -⟩ := h
  exact ⟨rest, takeKeyword?_eq_some_iff.1 hreturn⟩

/-! ## What lines spell -/

mutual

/-- The lines spell a block at an indent: one statement or more. -/
inductive SpellsBlock : Nat → List SourceLine → Block ReturnTarget → Prop
  | single {indent : Nat} {lines : List SourceLine} {s : Statement ReturnTarget} :
      SpellsStatement indent lines s → SpellsBlock indent lines [s]
  | cons {indent : Nat} {lines more : List SourceLine} {s : Statement ReturnTarget}
      {b : Block ReturnTarget} :
      SpellsStatement indent lines s → SpellsBlock indent more b →
      SpellsBlock indent (lines ++ more) (s :: b)

/-- The lines spell a statement: one line that is a return, or the branches
of a conditional. -/
inductive SpellsStatement : Nat → List SourceLine → Statement ReturnTarget → Prop
  | give {indent : Nat} {line : SourceLine} {target : ReturnTarget} :
      line.indent = indent → returnTarget? line.content = some target →
      SpellsStatement indent [line] (.give target)
  | conditional {indent : Nat} {lines more : List SourceLine} {branch : Expr × Block ReturnTarget}
      {branches : List (Expr × Block ReturnTarget)} {otherwise : Option (Block ReturnTarget)} :
      SpellsBranch "if" indent lines branch → SpellsFurther indent more branches otherwise →
      SpellsStatement indent (lines ++ more) (.conditional (branch :: branches) otherwise)

/-- The lines spell a header line with its body. -/
inductive SpellsBranch : String → Nat → List SourceLine → Expr × Block ReturnTarget → Prop
  | mk {keyword : String} {indent : Nat} {line : SourceLine} {lines : List SourceLine}
      {condition : Expr} {after : List Char} {b : Block ReturnTarget} :
      line.indent = indent → Header keyword line.content condition after →
      SpellsBody indent after lines b → SpellsBranch keyword indent (line :: lines) (condition, b)

/-- The lines spell the further branches of a conditional, and its last body
if it has one. -/
inductive SpellsFurther :
    Nat → List SourceLine → List (Expr × Block ReturnTarget) → Option (Block ReturnTarget) → Prop
  | done {indent : Nat} : SpellsFurther indent [] [] none
  | otherwise {indent : Nat} {line : SourceLine} {lines : List SourceLine} {after : List Char}
      {b : Block ReturnTarget} :
      line.indent = indent → ElseHeader line.content after → SpellsBody indent after lines b →
      SpellsFurther indent (line :: lines) [] (some b)
  | more {indent : Nat} {lines more : List SourceLine} {branch : Expr × Block ReturnTarget}
      {branches : List (Expr × Block ReturnTarget)} {otherwise : Option (Block ReturnTarget)} :
      SpellsBranch "elif" indent lines branch → SpellsFurther indent more branches otherwise →
      SpellsFurther indent (lines ++ more) (branch :: branches) otherwise

/-- The body of a header line at an indent: a return in `after`, behind the
colon, or a deeper block in the lines below. -/
inductive SpellsBody : Nat → List Char → List SourceLine → Block ReturnTarget → Prop
  | onLine {indent : Nat} {after : List Char} {target : ReturnTarget} :
      returnTarget? (trimChars after) = some target → SpellsBody indent after [] [.give target]
  | underneath {indent deeper : Nat} {after : List Char} {lines : List SourceLine}
      {b : Block ReturnTarget} :
      trimChars after = [] → indent < deeper → SpellsBlock deeper lines b →
      SpellsBody indent after lines b

end

/-! ## First lines -/

theorem startsWith_of_keyword {word : String} {content rest : List Char}
    (h : Keyword word content rest) : startsWith word content = true :=
  startsWith_iff.2 ⟨rest, h⟩

/-- A branch starts with a line of its indent and its keyword. -/
theorem SpellsBranch.head {keyword : String} {indent : Nat} {lines : List SourceLine}
    {found : Expr × Block ReturnTarget} (h : SpellsBranch keyword indent lines found) :
    ∃ line tail, lines = line :: tail ∧ line.indent = indent ∧
      startsWith keyword line.content = true := by
  cases h with
  | mk hindent hheader _ =>
    obtain ⟨_, _, hkeyword, -⟩ := hheader
    exact ⟨_, _, rfl, hindent, startsWith_of_keyword hkeyword⟩

/-- A statement starts with a line at its indent that is no further branch. -/
theorem SpellsStatement.head {indent : Nat} {lines : List SourceLine}
    {s : Statement ReturnTarget} (h : SpellsStatement indent lines s) :
    ∃ line tail, lines = line :: tail ∧ line.indent = indent ∧
      startsWith "elif" line.content = false ∧ startsWith "else" line.content = false := by
  cases h with
  | give hindent htarget =>
    obtain ⟨_, hreturn⟩ := keyword_of_returnTarget? htarget
    exact ⟨_, [], rfl, hindent, startsWith_eq_false hreturn (by decide) (by decide) (by decide),
      startsWith_eq_false hreturn (by decide) (by decide) (by decide)⟩
  | conditional hbranch hmore =>
    cases hbranch with
    | mk hindent hheader hbody =>
      obtain ⟨_, _, hif, -⟩ := hheader
      exact ⟨_, _, rfl, hindent, startsWith_eq_false hif (by decide) (by decide) (by decide),
        startsWith_eq_false hif (by decide) (by decide) (by decide)⟩

theorem SpellsStatement.length_pos {indent : Nat} {lines : List SourceLine}
    {s : Statement ReturnTarget} (h : SpellsStatement indent lines s) : 0 < lines.length := by
  obtain ⟨_, _, rfl, -⟩ := h.head
  exact Nat.succ_pos _

/-- A block starts with a line of its indent that continues no conditional. -/
theorem SpellsBlock.head {indent : Nat} {lines : List SourceLine} {b : Block ReturnTarget}
    (h : SpellsBlock indent lines b) :
    ∃ line tail, lines = line :: tail ∧ line.indent = indent ∧
      startsWith "elif" line.content = false ∧ startsWith "else" line.content = false := by
  cases h with
  | single hs => exact hs.head
  | cons hs _ =>
    obtain ⟨line, tail, rfl, hline⟩ := hs.head
    exact ⟨line, _, rfl, hline⟩

/-- The first line of a block is the one that tells a program. -/
theorem SpellsBlock.opens {indent : Nat} {lines : List SourceLine} {b : Block ReturnTarget}
    (h : SpellsBlock indent lines b) :
    ∃ line tail, lines = line :: tail ∧ line.indent = indent ∧
      (startsWith "if" line.content || startsWith "return" line.content) = true := by
  have hstatement : ∀ {lines s}, SpellsStatement indent lines s →
      ∃ line tail, lines = line :: tail ∧ line.indent = indent ∧
        (startsWith "if" line.content || startsWith "return" line.content) = true := by
    intro lines s hs
    cases hs with
    | give hindent htarget =>
      obtain ⟨_, hreturn⟩ := keyword_of_returnTarget? htarget
      exact ⟨_, [], rfl, hindent, by rw [startsWith_of_keyword hreturn, Bool.or_true]⟩
    | conditional hbranch _ =>
      obtain ⟨line, tail, rfl, hindent, hif⟩ := hbranch.head
      exact ⟨line, _, rfl, hindent, by rw [hif, Bool.true_or]⟩
  cases h with
  | single hs => exact hstatement hs
  | cons hs _ =>
    obtain ⟨line, tail, rfl, hline⟩ := hstatement hs
    exact ⟨line, _, rfl, hline⟩

/-! ## Where a reading ends -/

/-- The next line, if there is one, is indented less. -/
def EndsBlock (indent : Nat) (rest : List SourceLine) : Prop :=
  ∀ line ∈ rest.head?, line.indent < indent

/-- The next line, if there is one, is not indented more. -/
def EndsBody (indent : Nat) (rest : List SourceLine) : Prop :=
  ∀ line ∈ rest.head?, line.indent ≤ indent

/-- The next line, if there is one, is no part of a statement at this indent:
it is not indented more, and at the same indent it is no further branch. -/
def EndsStatement (indent : Nat) (rest : List SourceLine) : Prop :=
  ∀ line ∈ rest.head?, line.indent < indent ∨ line.indent = indent ∧
    startsWith "elif" line.content = false ∧ startsWith "else" line.content = false

theorem endsBlock_nil (indent : Nat) : EndsBlock indent [] := by
  intro line hline
  cases hline

/-- Where a block ends, its last statement ends. -/
theorem EndsBlock.endsStatement {indent : Nat} {rest : List SourceLine}
    (h : EndsBlock indent rest) : EndsStatement indent rest :=
  fun line hline => .inl (h line hline)

/-- Where a statement ends, its last body ends. -/
theorem EndsStatement.endsBody {indent : Nat} {rest : List SourceLine}
    (h : EndsStatement indent rest) : EndsBody indent rest := by
  intro line hline
  rcases h line hline with hlt | ⟨heq, -⟩ <;> omega

/-- A block in front of a statement ends it. -/
theorem SpellsBlock.endsStatement {indent : Nat} {lines rest : List SourceLine}
    {b : Block ReturnTarget} (h : SpellsBlock indent lines b) :
    EndsStatement indent (lines ++ rest) := by
  obtain ⟨line, tail, rfl, hline⟩ := h.head
  intro line' hline'
  cases hline'
  exact .inr hline

/-- The branches of a conditional end the body in front of them. -/
theorem SpellsFurther.endsBody {indent : Nat} {lines rest : List SourceLine}
    {branches : List (Expr × Block ReturnTarget)} {otherwise : Option (Block ReturnTarget)}
    (h : SpellsFurther indent lines branches otherwise) (hends : EndsStatement indent rest) :
    EndsBody indent (lines ++ rest) := by
  cases h with
  | done => exact hends.endsBody
  | otherwise hindent _ _ =>
    intro line hline
    cases hline
    exact le_of_eq hindent
  | more hbranch _ =>
    cases hbranch with
    | mk hindent _ _ =>
      intro line hline
      cases hline
      exact le_of_eq hindent

/-! ## What the reader reads is spelled -/

/-- A block that the reader takes off the front of some lines is spelled by
them; only in front of a line that is indented less does it take none. -/
def BlockSound (fuel : Nat) : Prop :=
  ∀ {indent lines b rest}, block fuel indent lines = .ok (b, rest) → 3 * lines.length ≤ fuel →
    (EndsBlock indent lines ∧ b = [] ∧ rest = lines) ∨
      ∃ taken, lines = taken ++ rest ∧ SpellsBlock indent taken b

def BranchSound (fuel : Nat) : Prop :=
  ∀ {keyword indent line lines found rest},
    branch fuel keyword indent line lines = .ok (found, rest) → line.indent = indent →
    3 * lines.length + 2 ≤ fuel →
    ∃ taken, lines = taken ++ rest ∧ SpellsBranch keyword indent (line :: taken) found

def BranchesSound (fuel : Nat) : Prop :=
  ∀ {indent lines found otherwise rest},
    branches fuel indent lines = .ok ((found, otherwise), rest) → 3 * lines.length ≤ fuel →
    ∃ taken, lines = taken ++ rest ∧ SpellsFurther indent taken found otherwise

def BodySound (fuel : Nat) : Prop :=
  ∀ {indent line after lines b rest},
    body fuel indent line after lines = .ok (b, rest) → 3 * lines.length + 1 ≤ fuel →
    ∃ taken, lines = taken ++ rest ∧ SpellsBody indent after taken b

/-- A line is read as a statement if and only if it gives a target. -/
theorem returnLine_eq_ok_iff {line : SourceLine} {content : List Char}
    {s : Statement ReturnTarget} :
    returnLine line content = .ok s ↔
      ∃ target, returnTarget? content = some target ∧ s = .give target := by
  rw [returnLine]
  cases returnTarget? content with
  | none => simp
  | some target => simp [eq_comm]

/-- What follows a statement of a block is the rest of the block. -/
theorem spellsBlock_cons {indent : Nat} {lines mid rest : List SourceLine}
    {s : Statement ReturnTarget} {b : Block ReturnTarget} (hs : SpellsStatement indent lines s)
    (hmore : (EndsBlock indent mid ∧ b = [] ∧ rest = mid) ∨
      ∃ taken, mid = taken ++ rest ∧ SpellsBlock indent taken b) :
    ∃ taken, lines ++ mid = taken ++ rest ∧ SpellsBlock indent taken (s :: b) := by
  rcases hmore with ⟨-, rfl, rfl⟩ | ⟨taken, rfl, hb⟩
  · exact ⟨lines, rfl, .single hs⟩
  · exact ⟨lines ++ taken, (List.append_assoc ..).symm, .cons hs hb⟩

/-- One more unit of fuel is sound for blocks if less is for their parts. So it is for
branches and bodies. -/
theorem block_step {fuel : Nat} (hblock : BlockSound fuel) (hbranch : BranchSound fuel)
    (hbranches : BranchesSound fuel) : BlockSound (fuel + 1) := by
  intro indent lines b rest h hfuel
  cases lines with
  | nil =>
    rw [block] at h
    cases h
    exact .inl ⟨endsBlock_nil _, rfl, rfl⟩
  | cons line lines =>
    rw [List.length_cons] at hfuel
    rw [block] at h
    split at h
    · next hlt =>
      cases h
      refine .inl ⟨?_, rfl, rfl⟩
      intro _ hline
      cases hline
      exact hlt
    split at h
    · cases h
    -- neither less nor more: the line is one of the block
    have hindent : line.indent = indent := by omega
    refine .inr ?_
    split at h
    · obtain ⟨⟨found, mid⟩, hread, h⟩ := bind_eq_ok_iff.1 h
      obtain ⟨⟨⟨founds, otherwise⟩, mid'⟩, hread', h⟩ := bind_eq_ok_iff.1 h
      obtain ⟨⟨more, rest'⟩, hread'', h⟩ := bind_eq_ok_iff.1 h
      cases h
      obtain ⟨taken, rfl, hspelled⟩ := hbranch hread hindent (by omega)
      rw [List.length_append] at hfuel
      obtain ⟨taken', rfl, hspelled'⟩ := hbranches hread' (by omega)
      rw [List.length_append] at hfuel
      have hmore := hblock hread'' (by omega)
      obtain ⟨all, heq, hall⟩ := spellsBlock_cons (.conditional hspelled hspelled') hmore
      exact ⟨all, by rw [← heq]; simp, hall⟩
    split at h
    · cases h
    · obtain ⟨s, hread, h⟩ := bind_eq_ok_iff.1 h
      obtain ⟨⟨more, rest'⟩, hread', h⟩ := bind_eq_ok_iff.1 h
      cases h
      obtain ⟨target, htarget, rfl⟩ := returnLine_eq_ok_iff.1 hread
      exact spellsBlock_cons (.give hindent htarget) (hblock hread' (by omega))

theorem branch_step {fuel : Nat} (hbody : BodySound fuel) : BranchSound (fuel + 1) := by
  intro keyword indent line lines found rest h hindent hfuel
  rw [branch] at h
  split at h
  · cases h
  · next condition after hheader =>
    obtain ⟨⟨b, rest'⟩, hread, h⟩ := bind_eq_ok_iff.1 h
    cases h
    obtain ⟨taken, rfl, hspelled⟩ := hbody hread (by omega)
    exact ⟨taken, rfl, .mk hindent (header?_eq_some_iff.1 hheader) hspelled⟩

theorem branches_step {fuel : Nat} (hbranch : BranchSound fuel) (hbranches : BranchesSound fuel)
    (hbody : BodySound fuel) : BranchesSound (fuel + 1) := by
  intro indent lines found otherwise rest h hfuel
  cases lines with
  | nil =>
    rw [branches] at h
    cases h
    exact ⟨[], rfl, .done⟩
  | cons line lines =>
    rw [List.length_cons] at hfuel
    rw [branches] at h
    split at h
    · cases h
      exact ⟨[], rfl, .done⟩
    -- The line stands at the indent of the block: a branch, the else of the block, or its end.
    next hindent =>
    rw [ne_eq, not_not] at hindent
    split at h
    · obtain ⟨⟨first, mid⟩, hread, h⟩ := bind_eq_ok_iff.1 h
      obtain ⟨⟨⟨founds, otherwise⟩, rest'⟩, hread', h⟩ := bind_eq_ok_iff.1 h
      cases h
      obtain ⟨taken, rfl, hspelled⟩ := hbranch hread hindent (by omega)
      rw [List.length_append] at hfuel
      obtain ⟨taken', rfl, hspelled'⟩ := hbranches hread' (by omega)
      exact ⟨line :: taken ++ taken', by simp, .more hspelled hspelled'⟩
    split at h
    · split at h
      · cases h
      · next after hheader =>
        obtain ⟨⟨b, rest'⟩, hread, h⟩ := bind_eq_ok_iff.1 h
        cases h
        obtain ⟨taken, rfl, hspelled⟩ := hbody hread (by omega)
        exact ⟨line :: taken, rfl, .otherwise hindent (elseHeader?_eq_some_iff.1 hheader) hspelled⟩
    · cases h
      exact ⟨[], rfl, .done⟩

theorem body_step {fuel : Nat} (hblock : BlockSound fuel) : BodySound (fuel + 1) := by
  intro indent line after lines b rest h hfuel
  rw [body.eq_def] at h
  dsimp only at h
  split at h
  · next hempty =>
    split at h
    · next next lines =>
      split at h
      · next hdeeper =>
        rcases hblock h (by omega) with ⟨hends, -⟩ | ⟨taken, heq, hspelled⟩
        · exact absurd (hends next rfl) (lt_irrefl _)
        · exact ⟨taken, heq, .underneath (List.isEmpty_iff.1 hempty) hdeeper hspelled⟩
      · cases h
    · cases h
  · obtain ⟨s, hread, h⟩ := bind_eq_ok_iff.1 h
    cases h
    obtain ⟨target, htarget, rfl⟩ := returnLine_eq_ok_iff.1 hread
    exact ⟨[], rfl, .onLine htarget⟩

/-- **What the reader reads is spelled by the lines it takes.** Fuel three
times the number of lines is never short, and each of the four readers calls
the others with one unit less. -/
theorem reader_sound (fuel : Nat) :
    BlockSound fuel ∧ BranchSound fuel ∧ BranchesSound fuel ∧ BodySound fuel := by
  induction fuel with
  | zero =>
    refine ⟨?_, ?_, ?_, ?_⟩
    · intro indent lines b rest h hfuel
      obtain rfl : lines = [] := List.eq_nil_of_length_eq_zero (by omega)
      rw [block] at h
      cases h
      exact .inl ⟨endsBlock_nil _, rfl, rfl⟩
    · intro keyword indent line lines found rest h hindent hfuel
      omega
    · intro indent lines found otherwise rest h hfuel
      rw [branches] at h
      cases h
      exact ⟨[], rfl, .done⟩
    · intro indent line after lines b rest h hfuel
      omega
  | succ fuel ih =>
    obtain ⟨hblock, hbranch, hbranches, hbody⟩ := ih
    exact ⟨block_step hblock hbranch hbranches, branch_step hbody,
      branches_step hbranch hbranches hbody, body_step hblock⟩

/-! ## What is spelled is read -/

/-- In front of a line that is indented less, a block takes nothing. -/
theorem block_of_endsBlock {indent : Nat} {rest : List SourceLine} (h : EndsBlock indent rest)
    (fuel : Nat) : block fuel indent rest = .ok ([], rest) := by
  cases fuel with
  | zero => rw [block]
  | succ fuel =>
    cases rest with
    | nil => rw [block]
    | cons line rest => rw [block, if_pos (h line rfl)]

/-- In front of a line that starts no branch at its indent, a conditional
has no further branch. -/
theorem branches_of_endsStatement {indent : Nat} {rest : List SourceLine}
    (h : EndsStatement indent rest) (fuel : Nat) :
    branches fuel indent rest = .ok (([], none), rest) := by
  cases fuel with
  | zero => rw [branches]
  | succ fuel =>
    cases rest with
    | nil => rw [branches]
    | cons line rest =>
      rw [branches]
      rcases h line rfl with hlt | ⟨heq, helif, helse⟩
      · rw [if_pos (by omega)]
      · rw [if_neg (by simpa using heq), helif, helse]
        rfl

mutual

/-- **Lines that spell a block are read as that block**, in front of a line
that is indented less. -/
theorem block_complete {indent : Nat} {lines : List SourceLine} {b : Block ReturnTarget} :
    SpellsBlock indent lines b → ∀ {rest} fuel, 3 * lines.length ≤ fuel → EndsBlock indent rest →
      block fuel indent (lines ++ rest) = .ok (b, rest)
  | .single hs, rest, fuel, hfuel, hends => by
    have hpos := hs.length_pos
    obtain ⟨fuel, rfl⟩ : ∃ f, fuel = f + 1 := ⟨fuel - 1, by omega⟩
    exact statement_complete hs fuel hfuel hends.endsStatement (block_of_endsBlock hends fuel)
  | .cons hs hmore, rest, fuel, hfuel, hends => by
    have hpos := hs.length_pos
    rw [List.length_append] at hfuel
    obtain ⟨fuel, rfl⟩ : ∃ f, fuel = f + 1 := ⟨fuel - 1, by omega⟩
    rw [List.append_assoc]
    exact statement_complete hs fuel (by omega) hmore.endsStatement
      (block_complete hmore fuel (by omega) hends)

/-- A statement is read from its lines if there is fuel for them. -/
theorem statement_complete {indent : Nat} {lines : List SourceLine}
    {s : Statement ReturnTarget} :
    SpellsStatement indent lines s → ∀ {more b rest} fuel, 3 * lines.length ≤ fuel + 1 →
      EndsStatement indent more → block fuel indent more = .ok (b, rest) →
      block (fuel + 1) indent (lines ++ more) = .ok (s :: b, rest)
  | .give hindent htarget, more, b, rest, fuel, hfuel, hends, hblock => by
    obtain ⟨_, hreturn⟩ := keyword_of_returnTarget? htarget
    rw [List.singleton_append, block, if_neg (by omega), if_neg (by omega),
      startsWith_eq_false hreturn (by decide) (by decide) (by decide),
      startsWith_eq_false hreturn (by decide) (by decide) (by decide),
      startsWith_eq_false hreturn (by decide) (by decide) (by decide),
      returnLine_eq_ok_iff.2 ⟨_, htarget, rfl⟩]
    exact bind_eq_ok_iff.2 ⟨_, rfl, bind_eq_ok_iff.2 ⟨_, hblock, rfl⟩⟩
  | @SpellsStatement.conditional _ lines _ _ _ _ hbranch hmore, more, b, rest, fuel, hfuel, hends,
    hblock => by
    obtain ⟨line, tail, hlines, hindent, hif⟩ := hbranch.head
    have hpos : 0 < lines.length := by rw [hlines]; exact Nat.succ_pos _
    rw [List.length_append] at hfuel
    -- each part is read in front of one that ends it
    have hread := branch_complete hbranch fuel hlines (by omega) (hmore.endsBody hends)
    have hread' := further_complete hmore fuel (by omega) hends
    rw [hlines, List.append_assoc, List.cons_append, block, if_neg (by omega), if_neg (by omega),
      if_pos hif]
    exact bind_eq_ok_iff.2 ⟨_, hread, bind_eq_ok_iff.2 ⟨_, hread',
      bind_eq_ok_iff.2 ⟨_, hblock, rfl⟩⟩⟩

theorem branch_complete {keyword : String} {indent : Nat} {lines : List SourceLine}
    {found : Expr × Block ReturnTarget} :
    SpellsBranch keyword indent lines found → ∀ {line tail rest} fuel, lines = line :: tail →
      3 * lines.length ≤ fuel + 1 → EndsBody indent rest →
      branch fuel keyword indent line (tail ++ rest) = .ok (found, rest)
  | .mk hindent hheader hbody, line, tail, rest, fuel, heq, hfuel, hends => by
    cases heq
    rw [List.length_cons] at hfuel
    obtain ⟨fuel, rfl⟩ : ∃ f, fuel = f + 1 := ⟨fuel - 1, by omega⟩
    rw [branch, header?_eq_some_iff.2 hheader]
    exact bind_eq_ok_iff.2 ⟨_, body_complete hbody fuel (by omega) hends, rfl⟩

theorem further_complete {indent : Nat} {lines : List SourceLine}
    {found : List (Expr × Block ReturnTarget)} {otherwise : Option (Block ReturnTarget)} :
    SpellsFurther indent lines found otherwise → ∀ {rest} fuel, 3 * lines.length ≤ fuel →
      EndsStatement indent rest →
      branches fuel indent (lines ++ rest) = .ok ((found, otherwise), rest)
  | .done, rest, fuel, hfuel, hends => branches_of_endsStatement hends fuel
  | .otherwise hindent hheader hbody, rest, fuel, hfuel, hends => by
    rw [List.length_cons] at hfuel
    obtain ⟨fuel, rfl⟩ : ∃ f, fuel = f + 1 := ⟨fuel - 1, by omega⟩
    obtain ⟨_, helse, -⟩ := id hheader
    rw [List.cons_append, branches, if_neg (not_not.2 hindent),
      startsWith_eq_false helse (by decide) (by decide) (by decide), if_neg (by decide),
      if_pos (startsWith_of_keyword helse), elseHeader?_eq_some_iff.2 hheader]
    exact bind_eq_ok_iff.2 ⟨_, body_complete hbody fuel (by omega) hends.endsBody, rfl⟩
  | @SpellsFurther.more _ lines _ _ _ _ hbranch hmore, rest, fuel, hfuel, hends => by
    obtain ⟨line, tail, hlines, hindent, helif⟩ := hbranch.head
    have hpos : 0 < lines.length := by rw [hlines]; exact Nat.succ_pos _
    rw [List.length_append] at hfuel
    obtain ⟨fuel, rfl⟩ : ∃ f, fuel = f + 1 := ⟨fuel - 1, by omega⟩
    have hread := branch_complete hbranch fuel hlines (by omega) (hmore.endsBody hends)
    rw [hlines, List.append_assoc, List.cons_append, branches, if_neg (not_not.2 hindent),
      if_pos helif]
    exact bind_eq_ok_iff.2 ⟨_, hread,
      bind_eq_ok_iff.2 ⟨_, further_complete hmore fuel (by omega) hends, rfl⟩⟩

theorem body_complete {indent : Nat} {after : List Char} {lines : List SourceLine}
    {b : Block ReturnTarget} :
    SpellsBody indent after lines b → ∀ {line rest} fuel, 3 * lines.length + 1 ≤ fuel →
      EndsBody indent rest → body fuel indent line after (lines ++ rest) = .ok (b, rest)
  | @SpellsBody.onLine _ after _ htarget, line, rest, fuel, hfuel, hends => by
    obtain ⟨fuel, rfl⟩ : ∃ f, fuel = f + 1 := ⟨fuel - 1, by omega⟩
    have hne : ¬ (trimChars after).isEmpty = true := by
      intro hempty
      rw [List.isEmpty_iff.1 hempty] at htarget
      cases htarget
    rw [body.eq_def]
    dsimp only
    rw [if_neg hne]
    exact bind_eq_ok_iff.2 ⟨_, returnLine_eq_ok_iff.2 ⟨_, htarget, rfl⟩, rfl⟩
  | .underneath hempty hdeeper hblock, line, rest, fuel, hfuel, hends => by
    obtain ⟨fuel, rfl⟩ : ∃ f, fuel = f + 1 := ⟨fuel - 1, by omega⟩
    obtain ⟨next, tail, hlines, hindent, -⟩ := hblock.head
    -- what is not indented more than the header is indented less than its body
    have hread := block_complete hblock fuel (by omega)
      fun line' hline' => lt_of_le_of_lt (hends line' hline') hdeeper
    rw [body.eq_def]
    dsimp only
    rw [if_pos (List.isEmpty_iff.2 hempty), hlines, List.cons_append]
    dsimp only
    rw [hindent, if_pos hdeeper, ← List.cons_append, ← hlines]
    exact hread

end

/-! ## The reader of programs -/

/-- A program that is read is spelled by its lines. -/
theorem spells_of_parseProgram {first : SourceLine} {lines : List SourceLine}
    {p : Block ReturnTarget} (h : parseProgram (first :: lines) = .ok p) :
    SpellsBlock first.indent (first :: lines) p := by
  obtain ⟨⟨b, rest⟩, hblock, h⟩ := bind_eq_ok_iff.1 h
  cases rest with
  | cons line rest => cases h
  | nil =>
    cases h
    rcases (reader_sound _).1 hblock (by omega) with ⟨-, -, heq⟩ | ⟨taken, heq, hspelled⟩
    · cases heq
    · rwa [heq, List.append_nil]

/-- A program that its lines spell is read from them. -/
theorem parseProgram_of_spells {first : SourceLine} {lines : List SourceLine}
    {p : Block ReturnTarget} (h : SpellsBlock first.indent (first :: lines) p) :
    parseProgram (first :: lines) = .ok p := by
  have hread := @block_complete _ _ _ h [] (4 * (first :: lines).length + 4) (by omega)
    (endsBlock_nil _)
  rw [List.append_nil] at hread
  exact bind_eq_ok_iff.2 ⟨_, hread, rfl⟩

/-- **The reader of programs accepts exactly what lines spell.** It gives a
program just when all of the lines, each used once and in order, spell it as
a block at the indent of the first, and no lines spell two programs. -/
theorem parseProgram_eq_ok_iff (first : SourceLine) (lines : List SourceLine)
    (p : Block ReturnTarget) :
    (parseProgram (first :: lines) = .ok p ↔ SpellsBlock first.indent (first :: lines) p) ∧
      ∀ q, SpellsBlock first.indent (first :: lines) p →
        SpellsBlock first.indent (first :: lines) q → q = p := by
  refine ⟨⟨spells_of_parseProgram, parseProgram_of_spells⟩, fun q hp hq => ?_⟩
  have heq := (parseProgram_of_spells hq).symm.trans (parseProgram_of_spells hp)
  exact Except.ok.inj heq

end Layout

end RuleVote
