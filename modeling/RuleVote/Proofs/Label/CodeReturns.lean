import RuleVote.Proofs.Label.Compilation
import RuleVote.Proofs.Rule.FixedPoint
import RuleVote.Proofs.Text.Case
/-!
# Returns of code names

Every label has a code name, and a program returns the label by it as far as
the text of a return can hold the code name: it has to be a word
(`RuleFunction.votes_code_name_iff`). Upper case and underscores do not make a
word of a name with punctuation or with letters beyond the alphabet, and no
label is refused for that. The one other way to the label is that its code name
reads as its index.

What follows the word `return` in such a text is in upper case, so no other
statement starts in it (`exists_give_of_parseBody`).
-/

namespace RuleVote

open Layout Token

/-- A free-form rule with a single return. -/
def Rule.returning (id code : String) : Rule :=
  ⟨id, none, "return " ++ code, freeFormMark, freeFormMark⟩

namespace LabelSet

variable {s : LabelSet} {i : Nat} {code : String}

/-- The code name of a label stands for this label. -/
theorem WellNamed.means_codeName (hs : s.WellNamed) (h : s.codeNames[i]? = some code) :
    s.Means (some (.label code)) i := by
  obtain ⟨hi, hat⟩ := List.getElem?_eq_some_iff.1 h
  have hne : code ≠ abstainCode := by
    rintro rfl
    exact hs.abstain_notMem (hat ▸ List.getElem_mem hi)
  refine .inr ⟨hne, i, rfl, fun m => ⟨fun hm => ?_, fun hm => hm ▸ h⟩⟩
  obtain ⟨hm, hat'⟩ := List.getElem?_eq_some_iff.1 hm
  exact hs.nodup.getElem_inj_iff.1 (hat'.trans hat.symm)

/-- A label has one code name. -/
theorem eq_of_means {word : String} (h : s.codeNames[i]? = some code)
    (hword : s.Means (some (.label word)) i) : word = code := by
  rcases hword with ⟨-, habstain⟩ | ⟨-, n, hn, hword⟩
  · cases habstain
  · obtain rfl : i = n := Int.ofNat_inj.1 hn
    exact Option.some.inj (((hword i).2 rfl).symm.trans h)

end LabelSet

/-! ## The text of a return -/

/-- A code name is in upper case. -/
theorem isLower_of_mem_codeName {name : String} {c : Char} (h : c ∈ (codeName name).toList) :
    c.isLower = false := by
  rw [codeName, String.toList_ofList] at h
  obtain ⟨d, hd, rfl⟩ := List.mem_map.1 h
  obtain ⟨_, -, hupper⟩ := List.mem_flatMap.1 hd
  split_ifs
  · rfl
  · exact isLower_of_mem_upperCase hupper

/-- The return of a target is read as it is meant. -/
theorem parseBody_return {code : String} {t : ReturnTarget} (h : t.Normal)
    (hcode : code.toList = Render.target t) :
    parseBody ("return " ++ code) = .ok (.program [.give t]) := by
  have htext : "return " ++ code = renderBody none (.program [.give t]) := by
    rw [← String.toList_inj, toList_renderBody_program, String.toList_append, hcode]
    rfl
  rw [htext]
  exact parseBody_renderBody Render.tableShaped_none ⟨List.cons_ne_nil _ _, h, trivial⟩
    (List.forall_mem_nil _)

/-- The return of a word. -/
theorem parseBody_return_word {code : String} (h : WordShaped code.toList) :
    parseBody ("return " ++ code) = .ok (.program [.give (.label code)]) :=
  parseBody_return (show (ReturnTarget.label code).Normal from h) rfl

/-- Upper case opens no statement. -/
theorem not_spells_of_count {indent : Nat} {lines : List SourceLine} {b : Block ReturnTarget}
    (hi : (contents lines).count 'i' = 0) (hr : (contents lines).count 'r' = 0) :
    ¬SpellsBlock indent lines b := by
  intro h
  obtain ⟨line, tail, rfl, -, hopens⟩ := h.opens
  rw [contents_cons, List.count_append] at hi hr
  have hstart : ∀ {word : String} (c : Char), c ∈ word.toList →
      startsWith word line.content = true → 0 < line.content.count c := by
    intro word c hc hword
    obtain ⟨rest, hcontent, -⟩ := startsWith_iff.1 hword
    rw [hcontent]
    exact List.count_pos_iff.2 (List.mem_append_left _ hc)
  rw [Bool.or_eq_true] at hopens
  rcases hopens with hif | hreturn
  · have := hstart 'i' (by decide) hif
    omega
  · have := hstart 'r' (by decide) hreturn
    omega

/-- What is laid out of a return in front of upper case: the letters of the
keywords that open a statement are used up by the first line. -/
theorem layout_return {code : String} (hupper : ∀ c ∈ code.toList, c.isLower = false) :
    ∃ indent more lines, layout ("return " ++ code).toList =
        ⟨1, indent, "return".toList ++ more⟩ :: lines ∧
      Keyword "return" ("return".toList ++ more) more ∧
      ∀ c, c.isLower = true → (contents lines).count c = 0 := by
  have htext : ("return " ++ code).toList = "return".toList ++ ' ' :: code.toList := by simp
  have hshape : WordShaped "return".toList := by decide
  have hfirm : ∀ c ∈ "return".toList, firm c = true :=
    fun c hc => firm_of_inWord (hshape.inWord c hc)
  obtain ⟨indent, more, lines, hlayout, hmore⟩ :=
    layout_append (' ' :: code.toList) (by decide) hfirm
  rw [← htext] at hlayout
  refine ⟨indent, more, lines, hlayout, ⟨rfl, ?_⟩, fun c hc => ?_⟩
  · cases more with
    | nil => rfl
    | cons c more =>
      obtain ⟨_, heq⟩ := hmore
      obtain ⟨rfl, -⟩ := List.cons.inj heq
      rfl
  · have hcount := (contents_layout (("return " ++ code).toList)).trans
      (stripComments_sublist _) |>.count_le c
    have hcode : code.toList.count c = 0 := List.count_eq_zero.2 fun hmem => by
      rw [hupper c hmem] at hc
      cases hc
    have hspace : (' ' :: code.toList).count c = 0 := by
      rw [List.count_cons_of_ne (by rintro rfl; cases hc), hcode]
    rw [hlayout, htext, contents_cons, List.count_append, List.count_append, List.count_append,
      hspace] at hcount
    omega

/-- A block that starts with a return ends there, if no line behind it opens a
statement. -/
theorem exists_give_of_spells {number indent indent' : Nat} {content more : List Char}
    {lines : List SourceLine} {b : Block ReturnTarget} (hreturn : Keyword "return" content more)
    (hi : (contents lines).count 'i' = 0) (hr : (contents lines).count 'r' = 0)
    (h : SpellsBlock indent' (⟨number, indent, content⟩ :: lines) b) : ∃ t, b = [.give t] := by
  generalize hall : (⟨number, indent, content⟩ :: lines : List SourceLine) = all at h
  have hgive : ∀ {ls ls' : List SourceLine} {s : Statement ReturnTarget},
      SpellsStatement indent' ls s → all = ls ++ ls' → ls' = lines ∧ ∃ t, s = .give t := by
    intro ls ls' s hs hsplit
    subst hall
    cases hs with
    | give _ _ =>
      cases hsplit
      exact ⟨rfl, _, rfl⟩
    | conditional hbranch _ =>
      -- the first line would have to start with `if`
      obtain ⟨line, tail, rfl, -, hif⟩ := hbranch.head
      cases hsplit
      rw [startsWith_eq_false hreturn (by decide) (by decide) (by decide)] at hif
      cases hif
  cases h with
  | single hs =>
    obtain ⟨-, t, rfl⟩ := hgive hs (List.append_nil _).symm
    exact ⟨t, rfl⟩
  | cons hs hmore =>
    obtain ⟨rfl, -⟩ := hgive hs rfl
    exact absurd hmore (not_spells_of_count hi hr)

/-- **A return in front of upper case is the only statement of its text.** -/
theorem exists_give_of_parseBody {code : String} {b : RuleBody}
    (hupper : ∀ c ∈ code.toList, c.isLower = false) (h : parseBody ("return " ++ code) = .ok b) :
    ∃ t, b = .program [.give t] := by
  obtain ⟨indent, more, lines, hlayout, hreturn, hletter⟩ := layout_return hupper
  rw [parseBody, hlayout] at h
  simp only [startsWith_of_keyword hreturn, Bool.or_true, if_true] at h
  cases hprogram : parseProgram (⟨1, indent, "return".toList ++ more⟩ :: lines) with
  | error => rw [hprogram] at h; cases h
  | ok p =>
    rw [hprogram] at h
    cases h
    obtain ⟨t, rfl⟩ := exists_give_of_spells hreturn (hletter _ rfl) (hletter _ rfl)
      (spells_of_parseProgram hprogram)
    exact ⟨t, rfl⟩

namespace RuleFunction

variable {r : Rule} {labels : LabelSet} {table : FeatureTable} {t : ReturnTarget} {v : Int}

/-- The rule compiles and votes the same on every row. -/
def Always (r : Rule) (labels : LabelSet) (table : FeatureTable) (v : Int) : Prop :=
  ∃ f, compile r labels table = .ok f ∧ ∀ row, f.apply row = .ok v

/-- **A single return votes what its target means**, if that is known. -/
theorem always_give_iff (hlabels : labels.WellNamed) (hfree : r.isFreeForm = true)
    (hbody : parseBody r.expression = .ok (.program [.give t])) :
    Always r labels table v ↔ ¬labels.Unknown t ∧ labels.Means (some t) v := by
  have hcompiles : (∃ f, compile r labels table = .ok f) ↔ ¬labels.Unknown t := by
    simp [exists_compile_program_iff hfree hbody, Statement.blockOccurrences,
      Statement.occurrences, Statement.blockTargets, Statement.targets]
  have hvotes : ∀ {f}, compile r labels table = .ok f → ∀ row,
      (f.apply row = .ok v ↔ labels.Means (some t) v) := by
    intro f hf row
    obtain ⟨body, hbody', -, hfollows⟩ := follows_of_compile hlabels hf
    cases hbody.symm.trans hbody'
    rw [(hfollows row).2]
    exact ⟨fun ⟨_, hrun, hmeans⟩ => Except.ok.inj hrun ▸ hmeans, fun hmeans => ⟨_, rfl, hmeans⟩⟩
  rw [← hcompiles]
  constructor
  · rintro ⟨f, hf, happly⟩
    exact ⟨⟨f, hf⟩, (hvotes hf fun _ => none).1 (happly _)⟩
  · rintro ⟨⟨f, hf⟩, hmeans⟩
    exact ⟨f, hf, fun row => (hvotes hf row).2 hmeans⟩

/-- **A label is voted by the return of its code name exactly if the code name
is a word**, or is read as the index of the label by itself. An abstention is
always voted by the return of its code name. -/
theorem votes_code_name_iff {names : List String} (hlabels : LabelSet.ofList names = .ok labels)
    (id : String) (table : FeatureTable) :
    (∀ (i : Nat) (code : String), labels.codeNames[i]? = some code →
      (Always (.returning id code) labels table i ↔ WordShaped code.toList ∨
        parseBody (Rule.returning id code).expression = .ok (.program [.give (.index i)]))) ∧
    Always (.returning id abstainCode) labels table abstain := by
  have hnamed := LabelSet.wellNamed_of_ofList hlabels
  have hfree : ∀ code, (Rule.returning id code).isFreeForm = true := fun _ => rfl
  refine ⟨fun i code hcode => ?_, ?_⟩
  · obtain ⟨hi, hat⟩ := List.getElem?_eq_some_iff.1 hcode
    have hmem : code ∈ labels.codeNames := hat ▸ List.getElem_mem hi
    constructor
    · rintro ⟨f, hf, happly⟩
      obtain ⟨body, hbody, -⟩ := follows_of_compile hnamed hf
      have hupper : ∀ c ∈ code.toList, c.isLower = false := by
        obtain ⟨label, -, rfl⟩ := List.mem_map.1 hmem
        exact fun c hc => isLower_of_mem_codeName hc
      obtain ⟨t, rfl⟩ := exists_give_of_parseBody hupper hbody
      obtain ⟨-, hmeans⟩ := (always_give_iff hnamed (hfree code) hbody).1 ⟨f, hf, happly⟩
      cases t with
      | index j =>
        obtain rfl : (i : Int) = j := hmeans
        exact .inr hbody
      | label word =>
        -- what is returned is a word, and the label has no other code name
        obtain rfl := LabelSet.eq_of_means hcode hmeans
        exact .inl (normal_of_parseBody hbody).2.1
    · rintro (hword | hindex)
      · refine (always_give_iff hnamed (hfree code) (parseBody_return_word hword)).2
          ⟨fun hunknown => hunknown.2 hmem, hnamed.means_codeName hcode⟩
      · refine (always_give_iff hnamed (hfree code) hindex).2 ⟨?_, rfl⟩
        rw [LabelSet.codeNames, List.length_map] at hi
        rintro ⟨-, hnegative | hlarge⟩
        · omega
        · exact absurd hi (not_lt.2 (Int.ofNat_le.1 hlarge))
  · exact (always_give_iff hnamed (hfree _) (parseBody_return_word (by decide))).2
      ⟨fun hunknown => hunknown.1 rfl, .inl ⟨rfl, rfl⟩⟩

/-- A code name with an underscore, and one that is read as the index of its
label. -/
theorem votes_code_name_digits :
    let labels : LabelSet := ⟨["high noise", "1"]⟩
    let table : FeatureTable := ⟨["a"], [⟨"noise", [1]⟩], none⟩
    LabelSet.ofList labels.labels = .ok labels ∧ labels.codeNames = ["HIGH_NOISE", "1"] ∧
      Always (.returning "high" "HIGH_NOISE") labels table 0 ∧
      Always (.returning "one" "1") labels table 1 ∧
      Always (.returning "none" "ABSTAIN") labels table (-1) := by
  intro labels table
  have hlabels : LabelSet.ofList labels.labels = .ok labels := by decide +kernel
  have hcodes : labels.codeNames = ["HIGH_NOISE", "1"] := by decide +kernel
  have hvotes := fun id => votes_code_name_iff hlabels id table
  refine ⟨hlabels, hcodes, ?_, ?_, (hvotes "none").2⟩
  · exact ((hvotes "high").1 0 "HIGH_NOISE" (by rw [hcodes]; rfl)).2 (.inl (by decide))
  · refine ((hvotes "one").1 1 "1" (by rw [hcodes]; rfl)).2 (.inr ?_)
    exact parseBody_return (show (ReturnTarget.index 1).Normal from ⟨by decide, by decide⟩) rfl

/-- A hyphen stays in a code name, and no return can hold it. -/
theorem not_votes_code_name_hyphen :
    let labels : LabelSet := ⟨["low", "high-noise"]⟩
    let table : FeatureTable := ⟨["a"], [⟨"noise", [1]⟩], none⟩
    LabelSet.ofList labels.labels = .ok labels ∧ labels.codeNames[1]? = some "HIGH-NOISE" ∧
      ¬Always (.returning "high" "HIGH-NOISE") labels table 1 := by
  intro labels table
  refine ⟨by decide +kernel, by decide +kernel, ?_⟩
  rintro ⟨f, hf, -⟩
  have hrefused : (compile (.returning "high" "HIGH-NOISE") labels table).toOption.isSome = false :=
    by decide +kernel
  rw [hf] at hrefused
  cases hrefused

end RuleFunction

end RuleVote
