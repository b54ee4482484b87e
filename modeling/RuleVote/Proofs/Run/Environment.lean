import Mathlib.Data.List.TakeWhile
import Mathlib.Tactic.SplitIfs
import RuleVote.Run.Config
/-!
# Overrides from the environment

The environment overrides where the worker is found by texts that are not blank
(`Overrides`), and a port is a text that spells a number of sixteen bits
(`SpellsPort`). Overriding fails exactly where the override of the port spells
none. Where it succeeds, host and port are the overrides or what they were before,
nothing else has changed, and there is no worker that was not asked for
(`RunConfig.Overridden`). Where it fails, the configuration has been given the host
already, and a worker if there was none: it is as before exactly where this makes
no difference (`RunConfig.applyEnvironment_atomic_iff`).
-/

namespace RuleVote

/-! ## Texts -/

theorem trimText_eq_empty_iff {s : String} : trimText s = "" ↔ ∀ c ∈ s.toList, isBlank c := by
  have hright : trimChars s.toList = [] ↔ trimLeft s.toList = [] := by
    rw [trimChars, trimRight, List.reverse_eq_nil_iff, List.dropWhile_eq_nil_iff]
    constructor
    · intro h
      -- what is left at the front starts with no blank, so nothing is left
      by_contra hne
      have hhead := List.head_dropWhile_not isBlank hne
      have hblank := h _ (List.mem_reverse.2 (List.head_mem hne))
      exact Bool.false_ne_true (hhead.symm.trans hblank)
    · intro h
      rw [h]
      exact nofun
  rw [trimText, String.ofList_eq_empty_iff, hright, trimLeft, List.dropWhile_eq_nil_iff]

/-- A text is decimal digits, with a plus sign or without, of a number of sixteen bits. -/
def SpellsPort (text : String) (n : Nat) : Prop :=
  ∃ digits : List Char, (text.toList = digits ∨ text.toList = '+' :: digits) ∧ digits ≠ [] ∧
    (∀ c ∈ digits, c.isDigit) ∧ digitsValue digits = n ∧ n < Nat.pow 2 16

theorem natBelow?_eq_some_iff {text : String} {n : Nat} :
    natBelow? (Nat.pow 2 16) text = some n ↔ SpellsPort text n := by
  have hdigits : ∀ digits : List Char, (if digits.isEmpty ∨ !digits.all Char.isDigit then none
      else if digitsValue digits < Nat.pow 2 16 then some (digitsValue digits) else none) = some n ↔
        digits ≠ [] ∧ (∀ c ∈ digits, c.isDigit) ∧ digitsValue digits = n ∧ n < Nat.pow 2 16 := by
    intro digits
    split_ifs with hbad hlt
    · refine iff_of_false nofun fun ⟨hne, hall, _⟩ => ?_
      rcases hbad with hempty | hdigit
      · exact hne (List.isEmpty_iff.1 hempty)
      · rw [List.all_eq_true.2 hall] at hdigit
        cases hdigit
    · rw [not_or, List.isEmpty_iff, Bool.not_eq_true', Bool.not_eq_false, List.all_eq_true] at hbad
      constructor
      · intro h
        obtain rfl := Option.some.inj h
        exact ⟨hbad.1, hbad.2, rfl, hlt⟩
      · rintro ⟨-, -, rfl, -⟩
        rfl
    · refine iff_of_false nofun ?_
      rintro ⟨-, -, rfl, hlt'⟩
      exact hlt hlt'
  rw [natBelow?, SpellsPort]
  split
  · next rest hplus =>
    rw [hdigits, hplus]
    constructor
    · exact fun h => ⟨rest, .inr rfl, h⟩
    · rintro ⟨digits, rfl | hrest, h⟩
      · -- a plus sign is no digit
        cases h.2.1 '+' List.mem_cons_self
      · obtain rfl := List.tail_eq_of_cons_eq hrest
        exact h
  · next hplus =>
    rw [hdigits]
    constructor
    · exact fun h => ⟨text.toList, .inl rfl, h⟩
    · rintro ⟨digits, rfl | hrest, h⟩
      · exact h
      · exact (hplus digits hrest).elim

/-- The environment has a text under a name that is not blank. -/
def Overrides (environment : String → Option String) (name text : String) : Prop :=
  environment name = some text ∧ trimText text ≠ ""

theorem Overrides.unique {environment : String → Option String} {name text text' : String}
    (h : Overrides environment name text) (h' : Overrides environment name text') : text = text' :=
  Option.some.inj (h.1.symm.trans h'.1)

namespace RunConfig

variable {c : RunConfig} {environment : String → Option String} {name text : String}

theorem override?_eq_some_iff :
    override? environment name = some text ↔ Overrides environment name text := by
  rw [override?, Option.filter_eq_some_iff, Overrides, Ne, trimText_eq_empty_iff, isBlankText,
    Bool.not_eq_true', List.all_eq_false]
  simp

theorem override?_eq_none_iff :
    override? environment name = none ↔ ∀ text, ¬Overrides environment name text := by
  simp only [Option.eq_none_iff_forall_ne_some, Ne, override?_eq_some_iff]

/-! ## The outcomes -/

/-- The host of the worker once the environment has had its say. -/
def hostAfter (c : RunConfig) (environment : String → Option String) : String :=
  ((override? environment hostVariable).map trimText).getD c.workerAddress.host

theorem hostAfter_of_overrides (h : Overrides environment hostVariable text) :
    c.hostAfter environment = trimText text := by
  rw [hostAfter, override?_eq_some_iff.2 h]
  rfl

theorem hostAfter_of_not (h : ∀ text, ¬Overrides environment hostVariable text) :
    c.hostAfter environment = c.workerAddress.host := by
  rw [hostAfter, override?_eq_none_iff.2 h]
  rfl

/-- The failure of an override of the port, which shows the text as it was given. -/
def portFailure (text : String) : Failure :=
  .config (portVariable ++ " is not a port: " ++ text)

theorem applyEnvironment_of_none (hhost : ∀ text, ¬Overrides environment hostVariable text)
    (hport : ∀ text, ¬Overrides environment portVariable text) :
    c.applyEnvironment environment = (.ok (), c) := by
  rw [applyEnvironment, override?_eq_none_iff.2 hhost, override?_eq_none_iff.2 hport]

theorem applyEnvironment_of_host (hhost : Overrides environment hostVariable text)
    (hport : ∀ text, ¬Overrides environment portVariable text) :
    c.applyEnvironment environment =
      (.ok (), c.withWorker { c.workerAddress with host := c.hostAfter environment }) := by
  rw [applyEnvironment, hostAfter, override?_eq_some_iff.2 hhost, override?_eq_none_iff.2 hport]

theorem applyEnvironment_of_port (hport : Overrides environment portVariable text) {n : Nat}
    (hn : SpellsPort (trimText text) n) : c.applyEnvironment environment = (.ok (),
      c.withWorker { c.workerAddress with host := c.hostAfter environment, port := n }) := by
  rw [applyEnvironment, hostAfter, override?_eq_some_iff.2 hport]
  cases override? environment hostVariable <;> dsimp only <;> rw [natBelow?_eq_some_iff.2 hn]

/-- **The host is there before the port is read.** -/
theorem applyEnvironment_of_bad_port (hport : Overrides environment portVariable text)
    (hbad : ∀ n, ¬SpellsPort (trimText text) n) : c.applyEnvironment environment =
      (.error (portFailure text),
        c.withWorker { c.workerAddress with host := c.hostAfter environment }) := by
  have hnone : natBelow? (Nat.pow 2 16) (trimText text) = none :=
    Option.eq_none_iff_forall_ne_some.2 fun n hn => hbad n (natBelow?_eq_some_iff.1 hn)
  rw [applyEnvironment, hostAfter, override?_eq_some_iff.2 hport]
  cases override? environment hostVariable <;> dsimp only <;> rw [hnone] <;> rfl

/-! ## Success and failure -/

/-- What a configuration is after the environment has overridden where the worker is
found: host and port are as the environment has them, trimmed, or as they were before
(those of the standard address for a worker that was not there), and the rest is the
same. -/
structure Overridden (c : RunConfig) (environment : String → Option String) (c' : RunConfig) :
    Prop where
  host : ∀ text, Overrides environment hostVariable text → c'.workerAddress.host = trimText text
  host_kept : (∀ text, ¬Overrides environment hostVariable text) →
    c'.workerAddress.host = c.workerAddress.host
  port : ∀ text, Overrides environment portVariable text →
    SpellsPort (trimText text) c'.workerAddress.port
  port_kept : (∀ text, ¬Overrides environment portVariable text) →
    c'.workerAddress.port = c.workerAddress.port
  timeout : c'.workerAddress.timeout = c.workerAddress.timeout
  others : c' = { c with worker := c'.worker }
  unasked : (∀ text, ¬Overrides environment hostVariable text) →
    (∀ text, ¬Overrides environment portVariable text) → c' = c
  asked : ∀ text, Overrides environment hostVariable text ∨
    Overrides environment portVariable text → c'.worker = some c'.workerAddress

/-- A host and a port that the environment asked for. -/
theorem overridden_withWorker {n : Nat} (hname : name = hostVariable ∨ name = portVariable)
    (hasked : Overrides environment name text)
    (hport : ∀ text, Overrides environment portVariable text → SpellsPort (trimText text) n)
    (hkept : (∀ text, ¬Overrides environment portVariable text) → n = c.workerAddress.port) :
    c.Overridden environment
      (c.withWorker { c.workerAddress with host := c.hostAfter environment, port := n }) where
  host _ h := hostAfter_of_overrides h
  host_kept := hostAfter_of_not
  port := hport
  port_kept := hkept
  timeout := rfl
  others := rfl
  unasked hnoHost hnoPort := by
    rcases hname with rfl | rfl
    · exact (hnoHost text hasked).elim
    · exact (hnoPort text hasked).elim
  asked _ _ := rfl

theorem overridden_self (hhost : ∀ text, ¬Overrides environment hostVariable text)
    (hport : ∀ text, ¬Overrides environment portVariable text) : c.Overridden environment c where
  host text h := (hhost text h).elim
  host_kept _ := rfl
  port text h := (hport text h).elim
  port_kept _ := rfl
  timeout := rfl
  others := rfl
  unasked _ _ := rfl
  asked text h := (h.elim (hhost text) (hport text)).elim

/-- **Overriding succeeds with what was asked for, or fails for the port.** -/
theorem applyEnvironment_cases (c : RunConfig) (environment : String → Option String) :
    (∃ c', c.applyEnvironment environment = (.ok (), c') ∧ c.Overridden environment c' ∧
      ∀ text, Overrides environment portVariable text → ∃ n, SpellsPort (trimText text) n) ∨
    ∃ text, c.applyEnvironment environment = (.error (portFailure text),
        c.withWorker { c.workerAddress with host := c.hostAfter environment }) ∧
      Overrides environment portVariable text ∧ ∀ n, ¬SpellsPort (trimText text) n := by
  by_cases hport : ∃ text, Overrides environment portVariable text
  · obtain ⟨text, htext⟩ := hport
    by_cases hn : ∃ n, SpellsPort (trimText text) n
    · obtain ⟨n, hn⟩ := hn
      have hspells : ∀ text, Overrides environment portVariable text →
          SpellsPort (trimText text) n := fun text' h => htext.unique h ▸ hn
      refine .inl ⟨_, applyEnvironment_of_port htext hn, ?_, fun text h => ⟨n, hspells text h⟩⟩
      exact overridden_withWorker (.inr rfl) htext hspells fun h => (h text htext).elim
    · have hbad := not_exists.1 hn
      exact .inr ⟨text, applyEnvironment_of_bad_port htext hbad, htext, hbad⟩
  · have hport := not_exists.1 hport
    have hspells : ∀ {n : Nat} text, Overrides environment portVariable text →
        SpellsPort (trimText text) n := fun text h => (hport text h).elim
    by_cases hhost : ∃ text, Overrides environment hostVariable text
    · obtain ⟨text, htext⟩ := hhost
      refine .inl ⟨_, applyEnvironment_of_host htext hport, ?_, fun text h => ⟨0, hspells text h⟩⟩
      exact overridden_withWorker (.inl rfl) htext hspells fun _ => rfl
    · have hhost := not_exists.1 hhost
      exact .inl ⟨c, applyEnvironment_of_none hhost hport, overridden_self hhost hport,
        fun text h => ⟨0, hspells text h⟩⟩

/-- A host makes no difference to a configuration exactly where its worker has it. -/
theorem withWorker_hostAfter_eq_iff :
    c.withWorker { c.workerAddress with host := c.hostAfter environment } = c ↔
      ∃ a, c.worker = some a ∧
        ∀ text, Overrides environment hostVariable text → trimText text = a.host := by
  constructor
  · intro h
    have hworker := congrArg worker h
    refine ⟨_, hworker.symm, fun text htext => ?_⟩
    exact (hostAfter_of_overrides htext).symm
  · rintro ⟨a, ha, hhost⟩
    have haddress : c.workerAddress = a := by rw [workerAddress, ha, Option.getD_some]
    have hsame : c.hostAfter environment = a.host := by
      by_cases h : ∃ text, Overrides environment hostVariable text
      · obtain ⟨text, htext⟩ := h
        rw [hostAfter_of_overrides htext, hhost text htext]
      · rw [hostAfter_of_not (not_exists.1 h), haddress]
    rw [hsame, haddress, withWorker, ← ha]

/-- **Overriding from the environment is precise, and atomic but for the host.** It
succeeds exactly where the override of the port, if there is one, spells a number of
sixteen bits, and then just what was asked for has changed. Where it fails the host has
been overridden all the same, and there is a worker: nothing has changed exactly where
there was one that had this host already. -/
theorem applyEnvironment_atomic_iff (c : RunConfig) (environment : String → Option String) :
    ((c.applyEnvironment environment).1 = .ok () ↔
      ∀ text, Overrides environment portVariable text → ∃ n, SpellsPort (trimText text) n) ∧
    ((c.applyEnvironment environment).1 = .ok () →
      c.Overridden environment (c.applyEnvironment environment).2) ∧
    ∀ f, (c.applyEnvironment environment).1 = .error f →
      (∃ text, Overrides environment portVariable text ∧ f = portFailure text) ∧
      (c.applyEnvironment environment).2 =
        c.withWorker { c.workerAddress with host := c.hostAfter environment } ∧
      ((c.applyEnvironment environment).2 = c ↔ ∃ a, c.worker = some a ∧
        ∀ text, Overrides environment hostVariable text → trimText text = a.host) := by
  rcases c.applyEnvironment_cases environment with
    ⟨c', hresult, hoverridden, hspells⟩ | ⟨text, hresult, htext, hbad⟩
  · rw [hresult]
    exact ⟨iff_of_true rfl hspells, fun _ => hoverridden, nofun⟩
  · rw [hresult]
    refine ⟨iff_of_false nofun fun h => ?_, nofun, fun f hf => ?_⟩
    · obtain ⟨n, hn⟩ := h text htext
      exact hbad n hn
    · cases hf
      exact ⟨⟨text, htext, rfl⟩, rfl, withWorker_hostAfter_eq_iff⟩

/-- A worker that has the host already, blanks apart, stays as it is. -/
theorem applyEnvironment_atomic_iff_same_host :
    let c := (RunConfig.new ⟨"quality", ["normal", "noisy"]⟩ "").withWorker
      ⟨"10.0.0.7", 9000, some 5⟩
    let environment := fun name => ([(hostVariable, " 10.0.0.7 "), (portVariable, "eighty")] :
      List (String × String)).lookup name
    (c.applyEnvironment environment).1 = .error (portFailure "eighty") ∧
      (c.applyEnvironment environment).2 = c := by
  intro c environment
  have hfails : (c.applyEnvironment environment).1 = .error (portFailure "eighty") := by
    decide +kernel
  have hhost : environment hostVariable = some " 10.0.0.7 " := by decide
  have htrim : trimText " 10.0.0.7 " = "10.0.0.7" := by decide +kernel
  obtain ⟨-, -, hsame⟩ := (applyEnvironment_atomic_iff c environment).2.2 _ hfails
  refine ⟨hfails, hsame.2 ⟨_, rfl, fun text htext => ?_⟩⟩
  obtain rfl := Option.some.inj (hhost.symm.trans htext.1)
  exact htrim

/-- A port that is no number leaves a worker behind where there was none, at the host
that came with it. -/
theorem not_applyEnvironment_atomic :
    let c := RunConfig.new ⟨"quality", ["normal", "noisy"]⟩ ""
    let environment := fun name => ([(hostVariable, "10.0.0.7"), (portVariable, "eighty")] :
      List (String × String)).lookup name
    (c.applyEnvironment environment).1 = .error (portFailure "eighty") ∧ c.worker = none ∧
      (c.applyEnvironment environment).2.worker = some ⟨"10.0.0.7", 8000, none⟩ ∧
      (c.applyEnvironment environment).2 ≠ c := by
  decide +kernel

end RunConfig

end RuleVote
