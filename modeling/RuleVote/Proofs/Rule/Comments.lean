import RuleVote.Proofs.Rule.Loosening
/-!
# Comments behind a line

A comment behind a line of an accepted text is ignored, if the line ends
outside quoted names and is also taken to do so when the comments are taken
out; where it is not, the text with the comment is refused
(`parseBody_append_comment`). For that the quotes are followed from the start of
each line and without regard to backslashes (`openQuote`), which may be wrong
behind an escaped quote, and on the last line of a name that goes over several.

Two things carry the proof. A comment that is found leaves one space more at
most, which loosens the text; a comment that is not found leaves a `#` outside
quotes, and an accepted text has none.
-/

namespace RuleVote

namespace Layout

open Token

/-- The quote that is taken to be open behind a line when the comments are taken
out. Behind a comment there is none. -/
def openQuote : Option Char → List Char → Option Char
  | quote, [] => quote
  | none, c :: cs =>
    if c = '#' then none else openQuote (if c = '"' ∨ c = '\'' then some c else none) cs
  | some quote, c :: cs => openQuote (if c = quote then none else some quote) cs

/-- What stands behind a line of a text: nothing, or a line break. -/
inductive EndsLine (line : List Char) : List Char → Prop
  | last : line ≠ [] → EndsLine line []
  | feed (rest : List Char) : line.getLast? ≠ some '\r' → EndsLine line ('\n' :: rest)
  | returnFeed (rest : List Char) : EndsLine line ('\r' :: '\n' :: rest)

/-- A text with one of its lines in the middle. -/
structure IsLine (before line after : List Char) : Prop where
  /-- The line starts the text or follows a line feed. -/
  starts : before = [] ∨ before.getLast? = some '\n'
  /-- It is one line. -/
  notMem : '\n' ∉ line
  /-- It is a whole line. -/
  ends : EndsLine line after

variable {before line after comment : List Char}

/-! ## The lines of the text -/

/-- Lines are cut off in front of a line. -/
theorem textLines_of_starts (h : before = [] ∨ before.getLast? = some '\n') (rest : List Char) :
    textLines (before ++ rest) = textLines before ++ textLines rest := by
  induction before using line_induction with
  | single line hline =>
    rcases h with rfl | h
    · rw [textLines_nil]
      rfl
    · exact absurd (List.mem_of_getLast? h) hline
  | cons line more hline ih =>
    have hmore : more = [] ∨ more.getLast? = some '\n' := by
      rcases eq_or_ne more [] with hnil | hne
      · exact .inl hnil
      · rcases h with h | h
        · simp at h
        · rw [List.getLast?_append_of_ne_nil _ (List.cons_ne_nil _ _),
            List.getLast?_cons_of_ne_nil hne] at h
          exact .inr h
    rw [List.append_assoc, List.cons_append, textLines_append hline, textLines_append hline,
      ih hmore, List.cons_append]

theorem dropReturn_append_of_ne_nil {ds : List Char} (h : ds ≠ []) (cs : List Char) :
    dropReturn (cs ++ ds) = cs ++ dropReturn ds := by
  rw [dropReturn, dropReturn, List.getLast?_append_of_ne_nil _ h]
  split_ifs
  · exact List.dropLast_append_of_ne_nil h
  · rfl

/-- The line is cut off whole, and with a comment behind it still is. -/
theorem EndsLine.textLines (h : EndsLine line after) (hline : '\n' ∉ line) : ∃ more,
    textLines (line ++ after) = line :: more ∧ ∀ comment, '\n' ∉ comment → ∃ comment',
      textLines ((line ++ ' ' :: '#' :: comment) ++ after) =
        (line ++ ' ' :: '#' :: comment') :: more := by
  have hnotMem : ∀ {comment}, '\n' ∉ comment → '\n' ∉ line ++ ' ' :: '#' :: comment :=
    fun hcomment => by simp [hline, hcomment]
  have hreturn : ∀ cs, dropReturn (cs ++ ['\r']) = cs := fun cs => by simp [dropReturn]
  cases h with
  | last hne =>
    refine ⟨[], ?_, fun comment hcomment => ⟨comment, ?_⟩⟩
    · rw [List.append_nil, textLines_of_notMem hline hne]
    · rw [List.append_nil, textLines_of_notMem (hnotMem hcomment) (by simp)]
  | feed rest hlast =>
    refine ⟨RuleVote.textLines rest, ?_, fun comment hcomment => ?_⟩
    · rw [textLines_append hline, dropReturn, if_neg hlast]
    · -- a carriage return at the end of the comment goes with the line break
      obtain ⟨comment', heq⟩ : ∃ comment', dropReturn (' ' :: '#' :: comment) =
          ' ' :: '#' :: comment' := by
        rcases eq_or_ne comment [] with rfl | hne
        · exact ⟨[], by decide⟩
        · exact ⟨dropReturn comment, dropReturn_append_of_ne_nil hne [' ', '#']⟩
      refine ⟨comment', ?_⟩
      rw [textLines_append (hnotMem hcomment), dropReturn_append_of_ne_nil (List.cons_ne_nil _ _),
        heq]
  | returnFeed rest =>
    have hsplit : ∀ cs : List Char, cs ++ '\r' :: '\n' :: rest = (cs ++ ['\r']) ++ '\n' :: rest :=
      fun cs => by simp
    refine ⟨RuleVote.textLines rest, ?_, fun comment hcomment => ⟨comment, ?_⟩⟩
    · rw [hsplit, textLines_append (by simp [hline]), hreturn]
    · rw [hsplit, textLines_append (by simp [hline, hcomment]), hreturn]

/-- **The text has the line among its lines**, and the text with a comment
behind it has the line with the comment in its place. -/
theorem IsLine.textLines (h : IsLine before line after) : ∃ more,
    textLines (before ++ line ++ after) = textLines before ++ line :: more ∧
      ∀ comment, '\n' ∉ comment → ∃ comment',
        textLines (before ++ (line ++ ' ' :: '#' :: comment) ++ after) =
          textLines before ++ (line ++ ' ' :: '#' :: comment') :: more := by
  obtain ⟨more, hlines, hcomments⟩ := h.ends.textLines h.notMem
  refine ⟨more, ?_, fun comment hcomment => ?_⟩
  · rw [List.append_assoc, textLines_of_starts h.starts, hlines]
  · obtain ⟨comment', hlines'⟩ := hcomments comment hcomment
    exact ⟨comment', by rw [List.append_assoc, textLines_of_starts h.starts, hlines']⟩

/-! ## Where the comment is found, and where not -/

/-- A comment behind closed quotes is taken out, with or without the space in
front of it. -/
theorem beforeComment_append_of_none {quote : Option Char} (h : openQuote quote line = none)
    (comment : List Char) : ∃ gap, (gap = [] ∨ gap = [' ']) ∧
      beforeComment quote (line ++ ' ' :: '#' :: comment) = beforeComment quote line ++ gap := by
  induction line generalizing quote with
  | nil =>
    rw [openQuote] at h
    subst h
    exact ⟨[' '], .inr rfl, rfl⟩
  | cons c line ih =>
    cases quote with
    | none =>
      rw [List.cons_append, beforeComment, beforeComment]
      rw [openQuote] at h
      by_cases hc : c = '#'
      · rw [if_pos hc, if_pos hc]
        exact ⟨[], .inl rfl, rfl⟩
      · rw [if_neg hc] at h ⊢
        rw [if_neg hc]
        obtain ⟨gap, hgap, heq⟩ := ih h
        exact ⟨gap, hgap, by rw [heq, List.cons_append]⟩
    | some quote =>
      obtain ⟨gap, hgap, heq⟩ := ih h
      exact ⟨gap, hgap, by rw [List.cons_append, beforeComment, beforeComment, heq,
        List.cons_append]⟩

/-- A comment behind an open quote is left in the text. -/
theorem beforeComment_append_of_some {quote : Option Char} {q : Char}
    (hquote : ∀ c ∈ quote, c = '"' ∨ c = '\'') (h : openQuote quote line = some q)
    (comment : List Char) : beforeComment quote line = line ∧ ∃ comment',
      beforeComment quote (line ++ ' ' :: '#' :: comment) = line ++ ' ' :: '#' :: comment' := by
  induction line generalizing quote with
  | nil =>
    rw [openQuote] at h
    subst h
    have hspace : ' ' ≠ q := by rcases hquote q rfl with rfl | rfl <;> decide
    have hmark : '#' ≠ q := by rcases hquote q rfl with rfl | rfl <;> decide
    refine ⟨rfl, beforeComment (some q) comment, ?_⟩
    rw [List.nil_append, beforeComment, if_neg hspace, beforeComment, if_neg hmark]
    rfl
  | cons c line ih =>
    -- inside the quote or before it, the first character is kept and the rest follows
    have step : ∀ {quote' : Option Char}, (∀ c ∈ quote', c = '"' ∨ c = '\'') →
        openQuote quote' line = some q → c :: beforeComment quote' line = c :: line ∧
          ∃ comment', c :: beforeComment quote' (line ++ ' ' :: '#' :: comment) =
            c :: line ++ ' ' :: '#' :: comment' := by
      intro quote' hquote' h'
      obtain ⟨hline, comment', hcomment⟩ := ih hquote' h'
      exact ⟨by rw [hline], comment', by rw [hcomment, List.cons_append]⟩
    cases quote with
    | none =>
      rw [openQuote] at h
      by_cases hc : c = '#'
      · rw [if_pos hc] at h
        cases h
      · rw [if_neg hc] at h
        rw [List.cons_append, beforeComment, beforeComment, if_neg hc, if_neg hc]
        refine step (fun d hd => ?_) h
        split_ifs at hd with hopens
        · cases hd
          exact hopens
        · cases hd
    | some quote =>
      rw [List.cons_append, beforeComment, beforeComment]
      refine step (fun d hd => ?_) h
      split_ifs at hd
      · cases hd
      · exact hquote d hd

/-! ## The text with the comment -/

/-- Lines in front of others, each with its line feed. -/
def feedLines (lines : List (List Char)) : List Char := lines.flatMap (· ++ ['\n'])

theorem joinLines_feedLines (lines : List (List Char)) (line : List Char)
    (more : List (List Char)) :
    joinLines (lines ++ line :: more) = feedLines lines ++ joinLines (line :: more) := by
  induction lines with
  | nil => rfl
  | cons first lines ih =>
    rw [List.cons_append, joinLines_cons (by simp), ih, feedLines, feedLines, List.flatMap_cons]
    simp

/-- What is behind a line does not depend on it. -/
theorem joinLines_tail (more : List (List Char)) : ∃ tail, (∀ c ∈ tail.head?, c = '\n') ∧
    ∀ line, joinLines (line :: more) = line ++ tail := by
  rcases eq_or_ne more [] with rfl | hne
  · exact ⟨[], by simp, fun line => (List.append_nil line).symm⟩
  · exact ⟨'\n' :: joinLines more, by simp, fun line => joinLines_cons hne⟩

theorem feedLines_eq {lines : List (List Char)} (h : lines ≠ []) :
    feedLines lines = joinLines lines ++ ['\n'] := by
  obtain ⟨init, last, rfl⟩ := List.eq_nil_or_concat lines |>.resolve_left h
  rw [List.concat_eq_append, joinLines_feedLines, feedLines, List.flatMap_append]
  simp [feedLines, joinLines]

/-- What is left of the text in front of a line. -/
def leftBefore (before : List Char) : List Char :=
  feedLines ((textLines before).map stripComment)

/-- What is left of the text up to the end of the line is what is left of it
there as a text of its own, but for a line feed at the end of that. -/
theorem leftBefore_append (hbefore : before = [] ∨ before.getLast? = some '\n')
    (hline : '\n' ∉ line) : ∃ feed, (feed = [] ∨ feed = ['\n']) ∧
      leftBefore before ++ stripComment line = stripComments (before ++ line) ++ feed := by
  rw [leftBefore, stripComments, textLines_of_starts hbefore, List.map_append]
  -- an empty line at the end is no line of the text
  rcases eq_or_ne line [] with rfl | hne
  · rw [textLines_nil, List.map_nil, List.append_nil]
    rcases eq_or_ne ((textLines before).map stripComment) [] with hnil | hlines
    · exact ⟨[], .inl rfl, by rw [hnil]; rfl⟩
    · exact ⟨['\n'], .inr rfl, by rw [feedLines_eq hlines]; exact List.append_nil _⟩
  · refine ⟨[], .inl rfl, ?_⟩
    rw [textLines_of_notMem hline hne, List.map_singleton, joinLines_feedLines, List.append_nil]
    rfl

/-- A line of a closed text that ends outside its quoted names. -/
theorem closed_leftBefore {rest : List Char} (hbefore : before = [] ∨ before.getLast? = some '\n')
    (hline : '\n' ∉ line) (hends : ¬EndsInside (stripComments (before ++ line)))
    (h : Closed (leftBefore before ++ stripComment line ++ rest)) :
    Closed (leftBefore before ++ stripComment line) := by
  obtain ⟨feed, hfeed, hleft⟩ := leftBefore_append hbefore hline
  rw [hleft, List.append_assoc] at h
  have hclosed := (closed_or_endsInside h).resolve_right hends
  rw [hleft]
  rcases hfeed with rfl | rfl
  · exact hclosed.append .nil
  · exact hclosed.append (.plain rfl .nil)

theorem trimChars_space (cs : List Char) : trimChars (cs ++ [' ']) = trimChars cs := by
  have hright : ∀ cs, trimRight (cs ++ [' ']) = trimRight cs := fun cs => by
    rw [trimRight, trimRight, List.reverse_append, List.reverse_singleton, List.singleton_append,
      List.dropWhile_cons_of_pos rfl]
  rw [trimChars, trimChars, trimLeft, trimLeft, List.dropWhile_append]
  split
  · next hempty =>
    rw [List.isEmpty_iff.1 hempty]
    rfl
  · exact hright _

/-- The indentation ends at the first character that is no blank. -/
theorem indentFrom_append {cs : List Char} (column : Nat) (h : trimLeft cs ≠ [])
    (ds : List Char) : indentFrom column (cs ++ ds) = indentFrom column cs := by
  fun_induction indentFrom column cs with
  | case1 column cs ih => exact ih h
  | case2 column cs ih => exact ih h
  | case3 cs column hspace htab =>
    cases cs with
    | nil => exact absurd rfl h
    | cons c cs =>
      rw [List.cons_append, indentFrom]
      · rintro _ ⟨⟩
        exact hspace _ rfl
      · rintro _ ⟨⟩
        exact htab _ rfl

/-- A line is laid out as before with a space behind it. -/
theorem sourceLine?_of_gap {line' gap : List Char} (number : Nat) (hgap : gap = [] ∨ gap = [' '])
    (h : stripComment line' = stripComment line ++ gap) :
    sourceLine? number line' = sourceLine? number line := by
  rcases hgap with rfl | rfl
  · rw [sourceLine?, h, List.append_nil, sourceLine?]
  · rw [sourceLine?, sourceLine?, h, trimChars_space]
    split_ifs with hempty
    · rfl
    · rw [indentFrom_append 0 _ [' ']]
      intro hblank
      rw [trimChars, hblank] at hempty
      exact hempty rfl

/-- **What is left of the text and of its layout** is the same with a comment
behind the line, but for what becomes of the line itself. -/
theorem IsLine.left (h : IsLine before line after) (hcomment : '\n' ∉ comment) :
    ∃ comment' tail, (∀ c ∈ tail.head?, c = '\n') ∧
      stripComments (before ++ line ++ after) = leftBefore before ++ stripComment line ++ tail ∧
      stripComments (before ++ (line ++ ' ' :: '#' :: comment) ++ after) =
        leftBefore before ++ stripComment (line ++ ' ' :: '#' :: comment') ++ tail ∧
      ((∀ number, sourceLine? number (line ++ ' ' :: '#' :: comment') = sourceLine? number line) →
        layout (before ++ (line ++ ' ' :: '#' :: comment) ++ after) =
          layout (before ++ line ++ after)) := by
  obtain ⟨more, hlines, hcomments⟩ := h.textLines
  obtain ⟨comment', hlines'⟩ := hcomments comment hcomment
  obtain ⟨tail, htail, hjoin⟩ := joinLines_tail (more.map stripComment)
  have hstrip : ∀ {text line' : List Char},
      RuleVote.textLines text = RuleVote.textLines before ++ line' :: more →
      stripComments text = leftBefore before ++ stripComment line' ++ tail := by
    intro text line' htext
    rw [stripComments, htext, List.map_append, List.map_cons, joinLines_feedLines, hjoin,
      List.append_assoc, leftBefore]
  refine ⟨comment', tail, htail, hstrip hlines, hstrip hlines', fun hsame => ?_⟩
  rw [layout, layout, hlines, hlines', numberLines_append, numberLines_append, numberLines,
    numberLines, hsame]

end Layout

open Layout

/-- **What a text is read as depends on its lines and on the expression that
it may be.** -/
theorem parseBody_congr {text text' : String} {b : RuleBody}
    (hlayout : layout text'.toList = layout text.toList)
    (hexpr : ∀ e, parseExpression (stripComments text.toList) = .ok e →
      parseExpression (stripComments text'.toList) = .ok e)
    (h : parseBody text = .ok b) : parseBody text' = .ok b := by
  simp only [parseBody, hlayout] at h ⊢
  split at h
  · cases h
  · next first lines hlines =>
    split_ifs at h ⊢ with hprogram
    · exact h
    · cases hread : parseExpression (stripComments text.toList) with
      | error => rw [hread] at h; cases h
      | ok e =>
        rw [hread] at h
        rw [hexpr e hread]
        exact h

/-- **A comment behind a line that ends outside quoted names is ignored exactly
where no quote is taken to be open.** Elsewhere the text with the comment is
refused. -/
theorem parseBody_append_comment {before line comment after : String} {b : RuleBody}
    (h : parseBody (before ++ line ++ after) = .ok b)
    (hline : IsLine before.toList line.toList after.toList)
    (hends : ¬EndsInside (stripComments (before ++ line).toList))
    (hcomment : '\n' ∉ comment.toList) :
    (openQuote none line.toList = none →
      parseBody (before ++ (line ++ " #" ++ comment) ++ after) = .ok b) ∧
    (openQuote none line.toList ≠ none →
      ∃ f, parseBody (before ++ (line ++ " #" ++ comment) ++ after) = .error f) := by
  have htext : (before ++ line ++ after).toList = before.toList ++ line.toList ++ after.toList := by
    simp
  have htext' : (before ++ (line ++ " #" ++ comment) ++ after).toList =
      before.toList ++ (line.toList ++ ' ' :: '#' :: comment.toList) ++ after.toList := by simp
  obtain ⟨comment', tail, htail, hleft, hleft', hlayout⟩ := hline.left hcomment
  have hall := closed_of_parseBody h
  rw [htext, hleft] at hall
  have hclosed := closed_leftBefore hline.starts hline.notMem (String.toList_append ▸ hends) hall
  constructor
  · intro hopen
    obtain ⟨gap, hgap, hfound⟩ := beforeComment_append_of_none hopen comment'
    change stripComment _ = stripComment _ ++ gap at hfound
    refine parseBody_congr ?_ (fun e he => parseExpression_of_loosened he ?_) h
    · rw [htext, htext']
      exact hlayout fun number => sourceLine?_of_gap number hgap hfound
    · rw [htext, htext', hleft, hleft', hfound, ← List.append_assoc, List.append_assoc _ gap]
      refine Loosened.after hclosed ?_
      rcases hgap with rfl | rfl
      · exact .same tail
      · exact .space fun c hc => htail c hc ▸ rfl
  · intro hopen
    obtain ⟨q, hq⟩ := Option.ne_none_iff_exists'.1 hopen
    obtain ⟨hkept, comment'', hfound⟩ := beforeComment_append_of_some (by simp) hq comment'
    cases hparse : parseBody (before ++ (line ++ " #" ++ comment) ++ after) with
    | error f => exact ⟨f, rfl⟩
    | ok b' =>
      -- the mark behind the line is left outside quotes
      have hall' := closed_of_parseBody hparse
      have hsplit : leftBefore before.toList ++ (line.toList ++ ' ' :: '#' :: comment'') ++ tail =
          leftBefore before.toList ++ line.toList ++ ' ' :: '#' :: (comment'' ++ tail) := by simp
      rw [htext', hleft', stripComment, hfound, hsplit] at hall'
      rw [stripComment, hkept] at hclosed
      exact absurd ((hclosed.of_append hall').of_inert rfl) not_closed_mark

/-- A line with a `#` in its quotes and an open quote in its comment. -/
theorem parseBody_append_comment_quoted_mark :
    let before := "noise\n"
    let line := "and fm['a#b']"
    let body : RuleBody := .expression (.connected .and [.feature "noise", .feature "a#b"])
    parseBody (before ++ line ++ "") = .ok body ∧ IsLine before.toList line.toList [] ∧
      ¬EndsInside (stripComments (before ++ line).toList) ∧ '\n' ∉ " it's".toList ∧
      openQuote none line.toList = none ∧
      parseBody (before ++ (line ++ " #" ++ " it's") ++ "") = .ok body := by
  intro before line body
  have hwhole : parseBody (before ++ line) = .ok body := by cbv
  have hbody : parseBody (before ++ line ++ "") = .ok body := by rwa [String.append_empty]
  have hline : IsLine before.toList line.toList [] :=
    ⟨.inr (by decide), by decide, .last (by decide)⟩
  have hends := (closed_of_parseBody hwhole).not_endsInside
  have hcomment : '\n' ∉ " it's".toList := by decide
  have hopen : openQuote none line.toList = none := by decide
  exact ⟨hbody, hline, hends, hcomment, hopen,
    (parseBody_append_comment hbody hline hends hcomment).1 hopen⟩

/-- An escaped quote is taken to end the name, and the quote behind it to open
another. -/
theorem not_parseBody_append_comment_escaped :
    let line := "fm['a\\'b']"
    let body : RuleBody := .expression (.feature "a'b")
    parseBody line = .ok body ∧ IsLine [] line.toList [] ∧
      ¬EndsInside (stripComments line.toList) ∧ parseBody (line ++ " # c") ≠ .ok body := by
  intro line body
  have hbody : parseBody line = .ok body := by cbv
  have hline : IsLine [] line.toList [] := ⟨.inl rfl, by decide, .last (by decide)⟩
  refine ⟨hbody, hline, (closed_of_parseBody hbody).not_endsInside, fun heq => ?_⟩
  have hrefused : (parseBody (line ++ " # c")).toOption.isSome = false := by decide +kernel
  rw [heq] at hrefused
  cases hrefused

end RuleVote
