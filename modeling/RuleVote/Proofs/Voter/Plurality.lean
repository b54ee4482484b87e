import RuleVote.Proofs.Voter.Shares
import RuleVote.Proofs.Voter.Ties
import RuleVote.Proofs.Voter.Probabilities
/-!
# The plurality of a row

Two shares are told apart when they are further apart than the tolerance of
ties, so the class with the most votes gets its row only where its lead is
worth that much. In a row of up to 99864 votes every lead is, and in a longer
one a lead of one vote in 99000 (`Clear`). There the tied classes are those
with the most votes (`mem_tiedClasses_majorityRow`), and the label is the
winner under every policy (`majority_labels_plurality`). One vote more than
99864 is too many: `not_plurality_of_close_row` has a winner and is tied.
-/

namespace RuleVote

open Float.Model (UnpackedFloat)

/-! ## Ties among numbers with values -/

section Ties

variable {x y : Float32} {p q : ℚ}

/-- A share is tied with itself. -/
theorem tied_self (hx : HasValue x p) : (x - x).abs ≤ tieTolerance := by
  rw [hx.sub_self.abs.le_iff hasValue_tieTolerance]
  positivity

/-- **A lead is above the tolerance**, also after the difference is rounded. -/
theorem not_tied_of_lead (hx : HasValue x p) (hy : HasValue y q) (hle : p ≤ 1)
    (hlead : q + leastLead ≤ p) : ¬ (x - y).abs ≤ tieTolerance := by
  have hnonneg := hy.nonneg
  have hpos : 0 < leastLead := by norm_num [leastLead]
  have habove : (10995116 : ℚ) * 2 ^ (-40 : ℤ) < leastLead := by norm_num [leastLead]
  obtain ⟨r, hr, hvalue⟩ : ∃ r, leastLead ≤ r ∧ HasValue (x - y) r := by
    rcases hnonneg.eq_or_lt with rfl | hq
    · exact ⟨p, by linarith, hx.sub_zero hy⟩
    · have hrange : InRange (p - q) := by
        constructor
        · refine le_trans ?_ (by linarith : leastLead ≤ p - q)
          norm_num [leastLead]
        · exact lt_of_le_of_lt (by linarith : p - q ≤ 1) (by norm_num)
      obtain ⟨r, hr, hvalue⟩ := hx.sub hy hq hrange
      exact ⟨r, hr.ge hrange.pos significant_leastLead (by linarith), hvalue⟩
  rw [hvalue.abs.le_iff hasValue_tieTolerance]
  exact not_le.2 (habove.trans_le hr)

/-- Negative infinity gives way to every value. -/
theorem larger_negativeInfinity (hx : HasValue x p) : larger negativeInfinity x = x := by
  have hcompare : ∀ {u : UnpackedFloat}, Writes u p →
      (negativeInfinity.toModel.unpack.compare u == some .lt) = true := by
    rintro _ (_ | _) <;> rfl
  have hlt : negativeInfinity < x := decide_eq_true_iff.2 (hcompare hx)
  have hnumber : ¬ negativeInfinity.isNaN = true := by decide
  rw [larger, if_neg hnumber, if_pos hlt]

/-- The larger of two numbers has the larger of their values. -/
theorem hasValue_larger (hx : HasValue x p) (hy : HasValue y q) :
    HasValue (larger x y) (max p q) := by
  rw [larger, if_neg (by rw [hx.not_isNaN]; exact Bool.false_ne_true)]
  split
  · next hlt => rwa [max_eq_right ((hx.lt_iff hy).1 hlt).le]
  · next hlt => rwa [max_eq_left (not_lt.1 fun h => hlt ((hx.lt_iff hy).2 h))]

variable {f : ℕ → Float32} {value : ℕ → ℚ} {k : ℕ}

/-- The largest of some numbers is one of them, and none is larger. -/
theorem exists_largest (hk : 0 < k) (hf : ∀ c < k, HasValue (f c) (value c)) :
    ∃ top < k, HasValue (largest ((List.range k).map f)) (value top) ∧
      ∀ c < k, value c ≤ value top := by
  induction k with
  | zero => exact absurd hk (lt_irrefl 0)
  | succ k ih =>
    rw [largest, List.range_succ, List.map_append, List.foldl_append]
    have hlast := hf k k.lt_succ_self
    rcases Nat.eq_zero_or_pos k with rfl | hk
    · refine ⟨0, Nat.one_pos, ?_, fun c hc => by rw [Nat.lt_one_iff.1 hc]⟩
      rw [List.range_zero, List.map_nil]
      show HasValue (larger negativeInfinity (f 0)) (value 0)
      rwa [larger_negativeInfinity hlast]
    · obtain ⟨top, htop, hvalue, hle⟩ := ih hk fun c hc => hf c (hc.trans k.lt_succ_self)
      have hmax : HasValue (larger (largest ((List.range k).map f)) (f k))
          (max (value top) (value k)) := hasValue_larger hvalue hlast
      rcases le_total (value k) (value top) with h | h
      · rw [max_eq_left h] at hmax
        refine ⟨top, by omega, hmax, fun c hc => ?_⟩
        rcases (Nat.lt_succ_iff.1 hc).eq_or_lt with rfl | hc
        · exact h
        · exact hle c hc
      · rw [max_eq_right h] at hmax
        refine ⟨k, by omega, hmax, fun c hc => ?_⟩
        rcases (Nat.lt_succ_iff.1 hc).eq_or_lt with rfl | hc
        · exact le_rfl
        · exact (hle c hc).trans h

/-- A class is tied if its share is within the tolerance of the largest. -/
theorem mem_tiedClasses_map {c : ℕ} : c ∈ tiedClasses ((List.range k).map f) ↔
    c < k ∧ (largest ((List.range k).map f) - f c).abs ≤ tieTolerance := by
  rw [mem_tiedClasses]
  simp [List.getElem?_eq_some_iff]

/-- **The tied classes are those of the largest value**, where every other
value is a lead below it. -/
theorem mem_tiedClasses_iff {top c : ℕ} (hf : ∀ c < k, HasValue (f c) (value c)) (htop : top < k)
    (hone : value top ≤ 1)
    (hlead : ∀ c < k, value c = value top ∨ value c + leastLead ≤ value top) :
    c ∈ tiedClasses ((List.range k).map f) ↔ c < k ∧ value c = value top := by
  have hpos : 0 < leastLead := by norm_num [leastLead]
  obtain ⟨largest, hmem, hlargest, hle⟩ := exists_largest (Nat.zero_lt_of_lt htop) hf
  have heq : value largest = value top := by
    rcases hlead largest hmem with h | h
    · exact h
    · have := hle top htop
      linarith
  rw [heq] at hlargest
  rw [mem_tiedClasses_map]
  refine and_congr_right fun hc => ?_
  rcases hlead c hc with hsame | hbehind
  · rw [hlargest.unique (hsame ▸ hf c hc)]
    exact iff_of_true (tied_self (hf c hc)) hsame
  · exact iff_of_false (not_tied_of_lead hlargest (hf c hc) hone hbehind) fun h => by linarith

end Ties

/-! ## The votes of a row -/

/-- The votes of a row for a class. -/
def votesFor (row : List Int) (c : ℕ) : ℕ := row.count (c : Int)

/-- The votes of a row that are no abstentions. -/
def votesCast (row : List Int) : ℕ := (row.filter (· ≠ abstain)).length

/-- No class has more votes. -/
def Leads (classes : ℕ) (row : List Int) (c : ℕ) : Prop :=
  c < classes ∧ ∀ d < classes, votesFor row d ≤ votesFor row c

/-- Every other class has fewer votes. -/
def Wins (classes : ℕ) (row : List Int) (c : ℕ) : Prop :=
  c < classes ∧ ∀ d < classes, d ≠ c → votesFor row d < votesFor row c

/-- The row is short, or a class that does not lead is behind by at least one
vote in 99000. -/
def Clear (classes : ℕ) (row : List Int) : Prop :=
  votesCast row ≤ 99864 ∨ votesCast row ≤ 2 ^ 24 ∧ ∀ c d, Leads classes row c → d < classes →
    votesFor row d < votesFor row c → votesCast row ≤ 99000 * (votesFor row c - votesFor row d)

instance (classes : ℕ) (row : List Int) (c : ℕ) : Decidable (Leads classes row c) :=
  inferInstanceAs (Decidable (_ ∧ _))

instance (classes : ℕ) (row : List Int) (c : ℕ) : Decidable (Wins classes row c) :=
  inferInstanceAs (Decidable (_ ∧ _))

section Row

variable {classes : ℕ} {row : List Int}

/-- Counting votes gives the number of votes of every class. -/
theorem foldlM_countVote {votes : List Int} (before : ℕ → ℕ)
    (hvotes : ∀ v ∈ votes, 0 ≤ v ∧ v < classes)
    (hbefore : ∀ c < classes, before c + votes.length ≤ 2 ^ 24) :
    votes.foldlM countVote ((List.range classes).map fun c => ofCount (before c)) =
      .ok ((List.range classes).map fun c => ofCount (before c + votesFor votes c)) := by
  induction votes generalizing before with
  | nil => rfl
  | cons v votes ih =>
    obtain ⟨⟨hnonneg, hlt⟩, hothers⟩ := List.forall_mem_cons.1 hvotes
    obtain ⟨c, rfl⟩ := Int.eq_ofNat_of_zero_le hnonneg
    have hc : c < classes := by omega
    have hlength : ((List.range classes).map fun c => ofCount (before c)).length = classes := by
      rw [List.length_map, List.length_range]
    have hone : before c + 1 ≤ 2 ^ 24 := (Nat.add_le_add_left (by simp) _).trans (hbefore c hc)
    -- Adding one is exact: no count passes the last whole number before the gaps.
    have hstep : countVote ((List.range classes).map fun d => ofCount (before d)) (c : Int) =
        .ok ((List.range classes).map fun d => ofCount (before d + if c = d then 1 else 0)) := by
      rw [countVote_of_lt hnonneg (by rw [hlength]; exact hc)]
      refine congrArg Except.ok (List.ext_getElem (by simp) fun i hi hi' => ?_)
      rw [List.getElem_set]
      simp only [List.getElem_map, List.getElem_range, Int.toNat_natCast]
      split
      · next heq => rw [← heq, ofCount_add_one (by omega)]
      · rfl
    have hrest : ∀ d < classes, (before d + if c = d then 1 else 0) + votes.length ≤ 2 ^ 24 := by
      intro d hd
      have := hbefore d hd
      rw [List.length_cons] at this
      split <;> omega
    rw [List.foldlM_cons, hstep]
    refine (ih _ hothers hrest).trans (congrArg Except.ok (List.map_congr_left fun d _ => ?_))
    rw [votesFor, votesFor, List.count_cons, Nat.add_assoc, Nat.add_comm (if c = d then 1 else 0)]
    simp only [beq_iff_eq, Nat.cast_inj]

theorem votesFor_filter (c : ℕ) : votesFor (row.filter (· ≠ abstain)) c = votesFor row c := by
  rw [votesFor, votesFor, List.count_filter]
  rw [decide_eq_true_eq, abstain]
  omega

/-- No class has more votes than were cast. -/
theorem votesFor_le (c : ℕ) : votesFor row c ≤ votesCast row := by
  rw [← votesFor_filter]
  exact List.count_le_length

/-- The shares of a row in which somebody votes. -/
theorem majorityRow_of_cast (hvotes : ∀ v ∈ row, v = abstain ∨ 0 ≤ v ∧ v < classes)
    (hpos : 0 < votesCast row) (hle : votesCast row ≤ 2 ^ 24) :
    majorityRow classes row = .ok ((List.range classes).map fun c =>
      ofCount (votesFor row c) / ofCount (votesCast row)) := by
  have hcast : ∀ v ∈ row.filter (· ≠ abstain), 0 ≤ v ∧ v < classes := by
    intro v hv
    obtain ⟨hmem, hne⟩ := List.mem_filter.1 hv
    exact (hvotes v hmem).resolve_left (of_decide_eq_true hne)
  have hzeros : List.replicate classes (0 : Float32) =
      (List.range classes).map fun _ => ofCount 0 := by
    rw [List.map_const', List.length_range]
    exact congrArg _ (hasValue_zero.unique Writes.zero)
  have hfold := foldlM_countVote (fun _ => 0) hcast fun c _ => (Nat.zero_add _).trans_le hle
  have hsome : ¬ (row.filter (· ≠ abstain)).isEmpty = true := by
    rw [List.isEmpty_iff_length_eq_zero]
    exact hpos.ne'
  rw [majorityRow, hzeros, hfold]
  refine (if_neg hsome).trans (congrArg Except.ok ?_)
  rw [List.map_map]
  refine List.map_congr_left fun c _ => ?_
  rw [Function.comp_apply, Nat.zero_add, votesFor_filter]
  rfl

/-- The shares of a row in which nobody votes. -/
theorem majorityRow_of_none (hnone : votesCast row = 0) :
    majorityRow classes row = .ok ((List.range classes).map fun _ => 1 / ofCount classes) := by
  have hempty := List.length_eq_zero_iff.1 hnone
  rw [majorityRow, hempty, List.map_const', List.length_range]
  rfl

/-- Some class leads, where there is any. -/
theorem exists_leads (row : List Int) (hk : 0 < classes) : ∃ c, Leads classes row c := by
  obtain ⟨c, hc, hmax⟩ := Finset.exists_max_image (Finset.range classes) (votesFor row)
    ⟨0, Finset.mem_range.2 hk⟩
  exact ⟨c, Finset.mem_range.1 hc, fun d hd => hmax d (Finset.mem_range.2 hd)⟩

/-- The share that every class has where nobody votes. -/
theorem exists_evenShare (hk : 0 < classes) (hlt : classes < 2 ^ 64) :
    ∃ r ≤ 1, HasValue (1 / ofCount classes) r := by
  have hone : (1 : ℚ) ≤ classes := by exact_mod_cast hk
  have hpos : (0 : ℚ) < classes := one_pos.trans_le hone
  obtain ⟨count, hcount, hvalue⟩ := hasValue_ofCount hk hlt
  have hlower : 1 ≤ count := hcount.ge hpos significant_one hone
  have hupper : count ≤ 2 ^ (64 : ℤ) :=
    hcount.le hpos (significant_zpow 64) (by exact_mod_cast hlt.le)
  have hcountpos : 0 < count := one_pos.trans_le hlower
  have hrange : InRange (1 / count) := by
    constructor
    · rw [le_div_iff₀ hcountpos]
      calc (2 : ℚ) ^ (-126 : ℤ) * count ≤ 2 ^ (-126 : ℤ) * 2 ^ (64 : ℤ) := by gcongr
        _ ≤ 1 := by norm_num
    · rw [div_lt_iff₀ hcountpos]
      exact one_lt_mul_of_lt_of_le (by norm_num) hlower
  obtain ⟨r, hr, hshare⟩ := hasValue_one.div hvalue one_pos hcountpos hrange
  exact ⟨r, hr.le hrange.pos significant_one ((div_le_one hcountpos).2 hlower), hshare⟩

/-- **The tied classes of a row are those that lead.** -/
theorem mem_tiedClasses_majorityRow (hk : 0 < classes) (hlt : classes < 2 ^ 64)
    (hvotes : ∀ v ∈ row, v = abstain ∨ 0 ≤ v ∧ v < classes) (hclear : Clear classes row)
    {shares : List Float32} (h : majorityRow classes row = .ok shares) {c : ℕ} :
    c ∈ tiedClasses shares ↔ Leads classes row c := by
  obtain ⟨top, htop⟩ := exists_leads row hk
  rcases Nat.eq_zero_or_pos (votesCast row) with hnone | hpos
  · cases (majorityRow_of_none hnone).symm.trans h
    obtain ⟨r, hr, hshare⟩ := exists_evenShare hk hlt
    have htied : c ∈ tiedClasses ((List.range classes).map fun _ => 1 / ofCount classes) ↔
        c < classes ∧ r = r := mem_tiedClasses_iff (fun _ _ => hshare) htop.1 hr fun _ _ => .inl rfl
    rw [htied]
    have hzero : ∀ d, votesFor row d = 0 := fun d => Nat.le_zero.1 (hnone ▸ votesFor_le d)
    refine and_congr_right fun _ => iff_of_true rfl fun d _ => ?_
    rw [hzero, hzero]
  have hle : votesCast row ≤ 2 ^ 24 := by
    rcases hclear with hfew | ⟨hle, -⟩
    · omega
    · exact hle
  cases (majorityRow_of_cast hvotes hpos hle).symm.trans h
  choose value hvalue hshare using fun c => exists_isShare (votesFor_le c) hpos hle
  -- classes with as many votes have the same share, any other is behind by a lead that shows
  have hsame : ∀ d, votesFor row d = votesFor row top → value d = value top := by
    intro d hd
    have hvalued := hvalue d
    rw [hd] at hvalued
    exact hvalued.value_unique (hvalue top)
  have hlead : ∀ d < classes, votesFor row d < votesFor row top →
      value d + leastLead ≤ value top := by
    intro d hd hbehind
    rcases hclear with hfew | ⟨-, hwide⟩
    · exact (hshare d).lead_of_few (hshare top) hbehind (votesFor_le top) hfew
    · exact (hshare d).lead_of_wide (hshare top) hbehind (votesFor_le top)
        (hwide top d htop hd hbehind)
  have hpos' : 0 < leastLead := by norm_num [leastLead]
  rw [mem_tiedClasses_iff (fun d _ => hvalue d) htop.1 ((hshare top).le_one (votesFor_le top))
    fun d hd => (htop.2 d hd).eq_or_lt.imp (hsame d) (hlead d hd)]
  refine and_congr_right fun hc => ⟨fun heq d hd => ?_, fun hleads => ?_⟩
  · rcases (htop.2 c hc).eq_or_lt with h | h
    · exact h ▸ htop.2 d hd
    · have := hlead c hc h
      linarith
  · exact hsame c (le_antisymm (htop.2 c hc) (hleads top htop.1))

/-- A class that wins leads. -/
theorem Wins.leads {c : ℕ} (h : Wins classes row c) : Leads classes row c := by
  refine ⟨h.1, fun d hd => ?_⟩
  rcases eq_or_ne d c with rfl | hne
  · exact le_rfl
  · exact (h.2 d hd hne).le

/-- Where a class wins, no other leads. -/
theorem Wins.eq_of_leads {c d : ℕ} (h : Wins classes row c) (hd : Leads classes row d) : d = c := by
  by_contra hne
  exact absurd (hd.2 c h.1) (not_le.2 (h.2 d hd.1 hne))

/-- **One class is tied alone just when it wins.** -/
theorem tiedClasses_eq_singleton_iff (hk : 0 < classes) (hlt : classes < 2 ^ 64)
    (hvotes : ∀ v ∈ row, v = abstain ∨ 0 ≤ v ∧ v < classes) (hclear : Clear classes row)
    {shares : List Float32} (h : majorityRow classes row = .ok shares) {c : ℕ} :
    tiedClasses shares = [c] ↔ Wins classes row c := by
  have hmem : ∀ {d}, d ∈ tiedClasses shares ↔ Leads classes row d :=
    mem_tiedClasses_majorityRow hk hlt hvotes hclear h
  constructor
  · intro hone
    have hleads := hmem.1 (hone ▸ List.mem_singleton_self c)
    refine ⟨hleads.1, fun d hd hne => (hleads.2 d hd).lt_of_ne fun heq => hne ?_⟩
    -- a class with as many votes leads as well
    have hd' : Leads classes row d := ⟨hd, fun e he => heq ▸ hleads.2 e he⟩
    exact List.mem_singleton.1 (hone ▸ hmem.2 hd')
  · intro hwins
    refine tiedClasses_eq_singleton_of_mem fun d => ?_
    rw [hmem]
    exact ⟨hwins.eq_of_leads, fun heq => heq ▸ hwins.leads⟩

end Row

/-! ## The labels of a matrix of votes -/

/-- **The majority voter returns the plurality** of every row that is clear,
where the number of classes is a label itself and the shares can be stored. -/
theorem majority_labels_plurality {classes : ℕ} (hk : 2 ≤ classes) (hlt : classes < Nat.pow 2 31)
    {votes : Matrix Int} (hm : votes.WellShaped)
    (hvotes : ∀ v ∈ votes.data.toList, v = abstain ∨ 0 ≤ v ∧ v < classes)
    (policy : TiePolicy) (seed : ℕ) (stream : KeyStream) :
    votes.rows * classes < capacity → ∃ labels,
      (majorityProbabilities classes votes >>= labelsFrom policy seed stream) = .ok labels ∧
      labels.length = votes.rows ∧
      ∀ (i : ℕ) (row : List Int) (label : Int), votes.row? i = some row →
        labels[i]? = some label → Clear classes row →
          (∀ c, Wins classes row c → label = c) ∧
          (policy = .abstain → (∀ c : ℕ, label = c → Wins classes row c) ∧
            ((∀ c, ¬Wins classes row c) → label = abstain)) ∧
          (policy = .random → ∃ c, Leads classes row c ∧ label = c) := by
  intro _
  have hk' : 0 < classes := by omega
  have hword : classes < 2 ^ 64 := lt_trans hlt (by decide)
  have hsame : ∀ c < classes, classLabel c = c := fun c hc => classLabel_of_lt (hc.trans hlt)
  obtain ⟨rows, hrows, hvalid⟩ := exists_validRows hm hvotes
  obtain ⟨qs, hqs, -, hlength⟩ :=
    exists_mapM_forall fun row hrow => exists_majorityRow (hvalid row hrow).2
  have hprobabilities : majorityProbabilities classes votes = .ok (Matrix.ofRowsOf classes qs) := by
    rw [majorityProbabilities, liftFailure_eq_ok_iff.2 (checkVotes_eq_ok hvotes), hrows]
    exact congrArg (fun x => x >>= fun qs => .ok (Matrix.ofRowsOf classes qs)) hqs
  have hlabels : labelsFrom policy seed stream (Matrix.ofRowsOf classes qs) =
      .ok (rowLabels policy seed classes 0 qs stream) := by
    rw [labelsFrom, Matrix.allRows_ofRowsOf hlength]
    rfl
  refine ⟨_, bind_eq_ok_iff.2 ⟨_, hprobabilities, hlabels⟩, ?_, ?_⟩
  · rw [length_rowLabels, length_of_mapM hqs, (Matrix.shape_of_allRows hrows).1]
  -- the label of a row is read off its shares, whatever the rows before have drawn
  intro i row label hrow hlabel hclear
  obtain ⟨shares, n, stream', hshares, rfl⟩ := exists_of_rowLabels hlabel
  obtain ⟨row', hrow', hshare⟩ := exists_getElem?_of_mapM hqs hshares
  have hread := orBreak_eq_ok_iff.1 (Matrix.row_of_allRows hrows hrow')
  obtain rfl := Option.some.inj (hrow.symm.trans hread)
  have hrowVotes := (hvalid row (List.mem_of_getElem? hrow')).2
  have hmem : ∀ {c}, c ∈ tiedClasses shares ↔ Leads classes row c :=
    mem_tiedClasses_majorityRow hk' hword hrowVotes hclear hshare
  have hsingle : ∀ {c}, tiedClasses shares = [c] ↔ Wins classes row c :=
    tiedClasses_eq_singleton_iff hk' hword hrowVotes hclear hshare
  have hwinner : ∀ c, Wins classes row c →
      (rowLabel policy seed classes n shares stream').1 = c :=
    fun c hwins => (rowLabel_of_single (hsingle.2 hwins)).trans (hsame c hwins.1)
  refine ⟨hwinner, ?_, ?_⟩
  · rintro rfl
    have habstains : (∀ c, ¬Wins classes row c) →
        (rowLabel .abstain seed classes n shares stream').1 = abstain :=
      fun hnone => rowLabel_abstain fun c hc => hnone c (hsingle.1 hc)
    refine ⟨fun c hc => ?_, habstains⟩
    by_contra hnot
    have hnone : ∀ d, ¬Wins classes row d := by
      intro d hd
      rw [hwinner d hd, Nat.cast_inj] at hc
      exact hnot (hc ▸ hd)
    rw [habstains hnone, abstain] at hc
    omega
  · rintro rfl
    obtain ⟨top, htop⟩ := exists_leads row hk'
    obtain ⟨c, hc, hlabel⟩ :=
      exists_rowLabel_random (List.ne_nil_of_mem (hmem.2 htop))
    exact ⟨c, hmem.1 hc, hlabel.trans (hsame c (hmem.1 hc).1)⟩

/-- In the first row class 0 wins, in the second two classes lead. -/
theorem majority_labels_plurality_mixed :
    let first : List Int := [0, 2, 0, abstain]
    let second : List Int := [1, 0, 1, 0]
    let votes := Matrix.ofRowsOf 4 [first, second]
    votes.WellShaped ∧ (∀ v ∈ votes.data.toList, v = abstain ∨ 0 ≤ v ∧ v < (3 : ℕ)) ∧
      votes.rows * 3 < capacity ∧ (Clear 3 first ∧ Wins 3 first 0) ∧ Clear 3 second ∧
      ∃ labels, (majorityProbabilities 3 votes >>= labelsFrom .random 7 (.ofSeed 7)) = .ok labels ∧
        labels[0]? = some 0 ∧ ∃ c, Leads 3 second c ∧ labels[1]? = some (c : Int) := by
  intro first second votes
  have hshape : votes.WellShaped := by decide
  have hvotes : ∀ v ∈ votes.data.toList, v = abstain ∨ 0 ≤ v ∧ v < (3 : ℕ) := by decide
  have hroom : votes.rows * 3 < capacity := by decide
  have hfirst : Clear 3 first := .inl (by decide)
  have hsecond : Clear 3 second := .inl (by decide)
  have hwins : Wins 3 first 0 := by decide
  refine ⟨hshape, hvotes, hroom, ⟨hfirst, hwins⟩, hsecond, ?_⟩
  obtain ⟨labels, hlabels, hlength, hrows⟩ :=
    majority_labels_plurality (by decide) (by decide) hshape hvotes .random 7 (.ofSeed 7) hroom
  have hlength : labels.length = 2 := hlength
  have h₀ : labels[0]? = some labels[0] := List.getElem?_eq_getElem (by omega)
  have h₁ : labels[1]? = some labels[1] := List.getElem?_eq_getElem (by omega)
  obtain ⟨c, hc, hlabel⟩ := (hrows 1 second _ rfl h₁ hsecond).2.2 rfl
  refine ⟨labels, hlabels, ?_, c, hc, h₁.trans (congrArg some hlabel)⟩
  exact h₀.trans (congrArg some ((hrows 0 first _ rfl h₀ hfirst).1 0 hwins))

/-! ## A row that is not clear -/

/-- Votes for three classes. -/
def threeBlocks (a b c : ℕ) : List Int :=
  List.replicate a 0 ++ List.replicate b 1 ++ List.replicate c 2

section Blocks

variable {a b c n : ℕ}

theorem votesFor_threeBlocks : votesFor (threeBlocks a b c) 0 = a ∧
    votesFor (threeBlocks a b c) 1 = b ∧ votesFor (threeBlocks a b c) 2 = c := by
  simp [votesFor, threeBlocks, List.count_append, List.count_replicate]

theorem votesCast_threeBlocks (hn : a + b + c = n) : votesCast (threeBlocks a b c) = n := by
  rw [← hn]
  simp [votesCast, threeBlocks, abstain, Nat.add_assoc]

theorem isVote_threeBlocks : ∀ v ∈ threeBlocks a b c, v = abstain ∨ 0 ≤ v ∧ v < (3 : ℕ) := by
  intro v hv
  simp only [threeBlocks, List.mem_append, List.mem_replicate] at hv
  omega

theorem length_threeBlocks (hn : a + b + c = n) :
    ∀ row ∈ [threeBlocks a b c], row.length = n := by
  rw [List.forall_mem_singleton, ← hn]
  simp [threeBlocks, Nat.add_assoc]

/-- The shares of the three blocks are their lengths over that of the row. -/
theorem probabilities_threeBlocks (hn : a + b + c = n) (hpos : 0 < n) (hle : n ≤ 2 ^ 24) :
    majorityProbabilities 3 (Matrix.ofRowsOf n [threeBlocks a b c]) =
      .ok (Matrix.ofRowsOf 3
        [[ofCount a / ofCount n, ofCount b / ofCount n, ofCount c / ofCount n]]) := by
  have hdata : ∀ v ∈ (Matrix.ofRowsOf n [threeBlocks a b c]).data.toList,
      v = abstain ∨ 0 ≤ v ∧ v < (3 : ℕ) := by
    rw [Matrix.ofRowsOf, List.flatten_singleton]
    exact isVote_threeBlocks
  have hcast := votesCast_threeBlocks hn
  have hshares : majorityRow 3 (threeBlocks a b c) =
      .ok [ofCount a / ofCount n, ofCount b / ofCount n, ofCount c / ofCount n] := by
    obtain ⟨hzero, hone, htwo⟩ := votesFor_threeBlocks (a := a) (b := b) (c := c)
    rw [majorityRow_of_cast isVote_threeBlocks (hcast ▸ hpos) (hcast ▸ hle), hcast]
    simp only [List.range_succ, List.range_zero, List.nil_append, List.map_cons, List.map_nil,
      List.cons_append, hzero, hone, htwo]
  rw [majorityProbabilities, liftFailure_eq_ok_iff.2 (checkVotes_eq_ok hdata),
    Matrix.allRows_ofRowsOf (length_threeBlocks hn)]
  refine bind_eq_ok_iff.2 ⟨(), rfl, bind_eq_ok_iff.2 ⟨_, rfl, bind_eq_ok_iff.2 ⟨_, ?_, rfl⟩⟩⟩
  rw [List.mapM_cons, hshares]
  rfl

end Blocks

/-- **One vote of 99865 is no lead.** Class 0 wins the row and the row is
tied. -/
theorem not_plurality_of_close_row :
    let row := threeBlocks 49693 49692 480
    let votes := Matrix.ofRowsOf 99865 [row]
    votes.WellShaped ∧ (∀ v ∈ votes.data.toList, v = abstain ∨ 0 ≤ v ∧ v < (3 : ℕ)) ∧
      votes.row 0 = .ok row ∧ Wins 3 row 0 ∧
      (majorityProbabilities 3 votes >>= labelsFrom .abstain 0 (.ofSeed 0)) = .ok [abstain] := by
  intro row votes
  have hsum : 49693 + 49692 + 480 = 99865 := by decide
  have hlength := length_threeBlocks hsum
  refine ⟨Matrix.wellShaped_ofRowsOf hlength, ?_, Matrix.row_ofRowsOf hlength Nat.one_pos, ?_, ?_⟩
  · show ∀ v ∈ [row].flatten, v = abstain ∨ 0 ≤ v ∧ v < (3 : ℕ)
    rw [List.flatten_singleton]
    exact isVote_threeBlocks
  · obtain ⟨hzero, hone, htwo⟩ := votesFor_threeBlocks (a := 49693) (b := 49692) (c := 480)
    refine ⟨by decide, fun d hd hne => ?_⟩
    rw [hzero]
    obtain rfl | rfl : d = 1 ∨ d = 2 := by omega
    · rw [hone]
      decide
    · rw [htwo]
      decide
  · -- The two shares differ by less than the tolerance.
    have htied : tiedClasses [ofCount 49693 / ofCount 99865, ofCount 49692 / ofCount 99865,
        ofCount 480 / ofCount 99865] = [0, 1] := by decide +kernel
    have hprobabilities := probabilities_threeBlocks hsum (by decide) (by decide)
    refine bind_eq_ok_iff.2 ⟨_, hprobabilities, ?_⟩
    rw [labelsFrom, Matrix.allRows_ofRowsOf (by decide)]
    generalize [ofCount 49693 / ofCount 99865, ofCount 49692 / ofCount 99865,
      ofCount 480 / ofCount 99865] = shares at htied
    have hlabel : ∀ stream, (rowLabel .abstain 0 3 0 shares stream).1 = abstain := by
      intro stream
      refine rowLabel_abstain fun c hc => ?_
      rw [htied] at hc
      cases hc
    exact congrArg (fun label => Except.ok [label]) (hlabel _)

end RuleVote
