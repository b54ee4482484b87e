import RuleVote.Label.VoteTable
import RuleVote.Proofs.Label.Compilation
import RuleVote.Proofs.Matrix.Shape
import RuleVote.Proofs.Rule.Evaluation
import RuleVote.Proofs.Table.Shape
/-!
# Votes of compiled rules

A function votes one of its outcomes (`mem_outcomes_of_apply`), and those of
a compiled rule are the abstention and labels (`isOutcome_of_mem_outcomes`).
It fails only for a feature that it reads and the row does not have
(`faultsAmong_apply`), so it votes on every item of the table that it was
compiled for (`exists_apply_row`). Hence the votes of compiled rules on their
table are there, and make a table of valid votes (`exists_apply`,
`valid_of_apply`).
-/

namespace RuleVote

namespace RuleFunction

variable {r : Rule} {labels : LabelSet} {table : FeatureTable} {f : RuleFunction} {row : Row}

/-! ## One function -/

/-- **A vote is one of the outcomes.** -/
theorem mem_outcomes_of_apply {v : Int} (h : f.apply row = .ok v) : v ∈ f.outcomes.toList := by
  obtain ⟨_, _, _, _, decision⟩ := f
  cases decision with
  | twoWay condition a b =>
    obtain ⟨holds, -, h⟩ := bind_eq_ok_iff.1 h
    have hv : v = a ∨ v = b := by
      cases holds
      · exact .inr (Except.ok.inj h).symm
      · exact .inl (Except.ok.inj h).symm
    simpa [outcomes] using hv
  | program block =>
    obtain ⟨reached, hrun, h⟩ := bind_eq_ok_iff.1 h
    cases h
    have hmem : reached.getD abstain = abstain ∨
        reached.getD abstain ∈ Statement.blockTargets block := by
      cases reached with
      | none => exact .inl rfl
      | some v => exact .inr (Statement.mem_of_runBlock row block hrun)
    simpa [outcomes] using hmem

/-- **The outcomes of a compiled rule are the abstention and labels.** -/
theorem isOutcome_of_mem_outcomes (h : compile r labels table = .ok f) {v : Int}
    (hv : v ∈ f.outcomes.toList) : labels.isOutcome v = true := by
  obtain ⟨body, decision, -, -, hdecision, rfl⟩ := compile_eq_ok_iff.1 h
  cases body with
  | expression condition =>
    obtain ⟨-, htrue, hfalse, rfl⟩ := resolve_expression_eq_ok_iff.1 hdecision
    have hv' : v = r.whenTrue ∨ v = r.whenFalse := by simpa [outcomes] using hv
    rcases hv' with rfl | rfl
    · exact htrue
    · exact hfalse
  | program block =>
    obtain ⟨-, -, b, hb, rfl⟩ := resolve_program_eq_ok_iff.1 hdecision
    have hv' : v = abstain ∨ v ∈ Statement.blockTargets b := by simpa [outcomes] using hv
    rcases hv' with rfl | hv'
    · exact LabelSet.isOutcome_iff.2 (.inl rfl)
    · obtain ⟨t, -, ht⟩ := Statement.exists_target_of_resolveBlock hb hv'
      exact isOutcome_of_resolveTarget ht

/-- **A compiled rule fails only for a feature that it reads** and that the row
does not have. -/
theorem faultsAmong_apply (h : compile r labels table = .ok f) (row : Row) :
    FaultsAmong row f.features.toList (f.apply row) := by
  obtain ⟨body, decision, -, -, hdecision, rfl⟩ := compile_eq_ok_iff.1 h
  have hsub : body.occurrences ⊆ body.features.toList :=
    fun name hname => SortedSet.mem_ofList.2 hname
  cases body with
  | expression condition =>
    obtain ⟨-, -, -, rfl⟩ := resolve_expression_eq_ok_iff.1 hdecision
    exact ((Expr.faultsAmong_holds row condition).bind fun _ => faultsAmong_ok _).mono hsub
  | program block =>
    obtain ⟨-, -, b, hb, rfl⟩ := resolve_program_eq_ok_iff.1 hdecision
    have hrun : FaultsAmong row (Statement.blockOccurrences block) (Statement.runBlock row b) := by
      intro missing hmissing
      have hsimulates := Statement.resolveBlock_simulates row hb
      refine Statement.faultsAmong_runBlock row block missing ?_
      rwa [← hsimulates.error_iff id, Except.map_id]
    exact (hrun.bind fun _ => faultsAmong_ok _).mono hsub

/-- **A compiled rule votes on every item of its table.** -/
theorem exists_apply_row (ht : table.Shaped) (h : compile r labels table = .ok f) {i : Nat}
    (hi : i < table.size) : ∃ v, f.apply (table.row i) = .ok v := by
  refine (faultsAmong_apply h (table.row i)).exists_ok fun name hname => ?_
  obtain ⟨body, decision, -, hcolumns, -, rfl⟩ := compile_eq_ok_iff.1 h
  exact ht.row_ne_none hi (hcolumns name (SortedSet.mem_ofList.1 hname))

end RuleFunction

namespace VoteTable

variable {functions : List RuleFunction} {table : FeatureTable} {t : VoteTable}

/-! ## Tables of votes -/

/-- A row of votes for each item, each of an abstention or one of so many
classes for each function. -/
structure Valid (t : VoteTable) (classes : Nat) : Prop where
  rows_eq : t.votes.rows = t.keys.length
  cols_eq : t.votes.cols = t.functions.length
  wellShaped : t.votes.WellShaped
  isVote : ∀ v ∈ t.votes.data.toList, v = abstain ∨ 0 ≤ v ∧ v < classes

theorem apply_eq_ok_iff : apply functions table = .ok t ↔ ∃ rows,
    (List.range table.size).mapM (fun i => voteRow functions (table.row i)) = .ok rows ∧
      t = ⟨table.keys, functions.map RuleFunction.name,
        Matrix.ofRowsOf functions.length rows⟩ := by
  rw [apply]
  cases (List.range table.size).mapM fun i => voteRow functions (table.row i) with
  | error missing =>
    constructor
    · intro h
      cases h
    · rintro ⟨rows, h, -⟩
      cases h
  | ok rows =>
    constructor
    · intro h
      cases h
      exact ⟨rows, rfl, rfl⟩
    · rintro ⟨_, h, rfl⟩
      cases h
      rfl

/-- **Functions that vote on every item have a table of votes.** -/
theorem exists_apply
    (h : ∀ f ∈ functions, ∀ i < table.size, ∃ v, f.apply (table.row i) = .ok v) :
    ∃ t, apply functions table = .ok t := by
  have hrows : ∀ i ∈ List.range table.size, ∃ votes, voteRow functions (table.row i) = .ok votes :=
    fun i hi => exists_mapM_eq_ok_iff.2 fun f hf => h f hf i (List.mem_range.1 hi)
  obtain ⟨rows, hrows⟩ := exists_mapM_eq_ok_iff.2 hrows
  exact ⟨_, apply_eq_ok_iff.2 ⟨rows, hrows, rfl⟩⟩

/-- Every row has a vote of each function. -/
theorem length_of_voteRows {rows : List (List Int)}
    (h : (List.range table.size).mapM (fun i => voteRow functions (table.row i)) = .ok rows) :
    ∀ votes ∈ rows, votes.length = functions.length := by
  intro votes hvotes
  obtain ⟨i, -, hi⟩ := exists_of_mem_mapM h hvotes
  exact length_of_mapM hi

theorem length_goldRow (gold : String → Option Int) (key : String) (row : List Int) :
    (goldRow gold key row).length = row.length := by
  rw [goldRow]
  cases gold key with
  | none => rfl
  | some label => exact List.length_map _

/-- **Functions with valid outcomes give valid votes.** -/
theorem valid_of_apply {classes : Nat} (h : apply functions table = .ok t)
    (hfunctions : ∀ f ∈ functions, ∀ v ∈ f.outcomes.toList, v = abstain ∨ 0 ≤ v ∧ v < classes) :
    t.Valid classes := by
  obtain ⟨rows, hrows, rfl⟩ := apply_eq_ok_iff.1 h
  refine ⟨?_, (List.length_map _).symm, Matrix.wellShaped_ofRowsOf (length_of_voteRows hrows), ?_⟩
  · have hcount := (mapM_eq_ok_iff.1 hrows).length_eq
    rw [List.length_range] at hcount
    exact hcount.symm
  · intro v hv
    obtain ⟨votes, hvotes, hmem⟩ := List.mem_flatten.1 hv
    obtain ⟨i, -, hi⟩ := exists_of_mem_mapM hrows hvotes
    obtain ⟨f, hf, happly⟩ := exists_of_mem_mapM hi hmem
    exact hfunctions f hf v (RuleFunction.mem_outcomes_of_apply happly)

end VoteTable

end RuleVote
