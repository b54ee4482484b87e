import RuleVote.Proofs.Json.Reading
/-!
# What decoders recall

A decoder recalls a value from the JSON it is written as when it gets this value
back from every document of the JSON, exactly if all single precision numbers in
it are finite (`Decoder.Recalls`). What decoders of parts recall, decoders of
lists, records and choices made from them recall as well; a record is read field
by field (`RecordDecoder.Reads`).
-/

namespace RuleVote

variable {α β : Type}

namespace Json

/-- All single precision numbers of a value are finite. -/
def Finite (j : Json) : Prop := ∀ x ∈ j.singles, IsFinite x

/-- Those that are finite read back. -/
def Exact (j : Json) : Prop := ∀ x ∈ j.singles, IsFinite x → ReadsBack x

/-- An object is finite if all of its fields are. -/
theorem finite_object {fields : List (String × Json)} :
    (object fields).Finite ↔ ∀ field ∈ fields, field.2.Finite := by
  simp only [Finite, singles, mem_fieldSingles]
  exact ⟨fun h field hfield x hx => h x ⟨field, hfield, hx⟩,
    fun h x ⟨field, hfield, hx⟩ => h field hfield x hx⟩

/-- An array is finite if all of its items are. -/
theorem finite_array {items : List Json} :
    (array items).Finite ↔ ∀ item ∈ items, item.Finite := by
  simp only [Finite, singles, mem_itemSingles]
  exact ⟨fun h item hitem x hx => h x ⟨item, hitem, hx⟩,
    fun h x ⟨item, hitem, hx⟩ => h item hitem x hx⟩

/-- If an object is exact, each of its fields is. -/
theorem Exact.field {fields : List (String × Json)} (h : (object fields).Exact)
    {field : String × Json} (hfield : field ∈ fields) : field.2.Exact :=
  fun x hx => h x (mem_fieldSingles.2 ⟨field, hfield, hx⟩)

/-- If an array is exact, each of its items is. -/
theorem Exact.item {items : List Json} (h : (array items).Exact) {item : Json}
    (hitem : item ∈ items) : item.Exact :=
  fun x hx => h x (mem_itemSingles.2 ⟨item, hitem, hx⟩)

end Json

namespace Decoder

/-- From every document of the JSON, in a frame with room for `n` levels, the
decoder gets the value exactly if the numbers in the JSON are finite. -/
structure Recalls (decoder : Decoder α) (n : Nat) (j : Json) (a : α) : Prop where
  legible : j.Exact → j.Legible n
  decode : j.Exact → ∀ {frame : Frame}, frame.Spans n →
    (decoder (j.document frame) = .ok a ↔ j.Finite)

variable {decoder : Decoder α} {n : Nat} {a : α}

/-! ## Scalars -/

/-- What is read from a text is recalled from a string. -/
theorem recalls_of_text {s : String} (h : decoder (.text (some s)) = .ok a) :
    decoder.Recalls n (.string s) a :=
  ⟨fun _ => .string s, fun _ _ _ => iff_of_true h nofun⟩

theorem recalls_string (s : String) : string.Recalls n (.string s) s := recalls_of_text rfl

theorem recalls_bool (b : Bool) : bool.Recalls n (.bool b) b :=
  ⟨fun _ => .bool b, fun _ _ _ => iff_of_true rfl nofun⟩

/-- An integer within its bounds is recalled. -/
theorem recalls_integer {low high i : Int} (h : low ≤ i ∧ i ≤ high) (hlow : -(2 ^ 63 : Int) ≤ low)
    (hhigh : high < 2 ^ 64) : (integer low high).Recalls n (.integer i) i := by
  have hrange : -(2 ^ 63 : Int) ≤ i ∧ i < 2 ^ 64 := by omega
  refine ⟨fun _ => .integer hrange, fun _ frame _ => iff_of_true ?_ nofun⟩
  rw [Json.document, Json.numberDocument_intText hrange, integer, if_pos h]

/-- A natural number of 64 bits. -/
def IsWord (v : Nat) : Prop := v < 2 ^ 64

instance (v : Nat) : Decidable (IsWord v) := inferInstanceAs (Decidable (v < 2 ^ 64))

/-- A label of 32 bits. -/
def IsLabel (i : Int) : Prop := -(2 ^ 31 : Int) ≤ i ∧ i < 2 ^ 31

instance (i : Int) : Decidable (IsLabel i) := inferInstanceAs (Decidable (_ ∧ _))

theorem recalls_index {i : Int} (h : IsLabel i) : index.Recalls n (.integer i) i := by
  have hbound : ((Nat.pow 2 31 : Nat) : Int) = 2 ^ 31 := rfl
  unfold IsLabel at h
  exact recalls_integer (by omega) (by omega) (by omega)

theorem recalls_nat {v : Nat} (h : IsWord v) : nat.Recalls n (.ofNat v) v := by
  have hbound : Nat.pow 2 64 = 2 ^ 64 := rfl
  unfold IsWord at h
  have hinteger : (integer 0 (Nat.pow 2 64 - 1 : Nat)).Recalls n (.integer v) v :=
    recalls_integer (by omega) (by omega) (by omega)
  refine ⟨hinteger.legible, fun hexact frame hframe => iff_of_true ?_ nofun⟩
  rw [nat, Json.ofNat, (hinteger.decode hexact hframe).2 nofun]
  rfl

/-- A number of single precision is recalled, which only a finite one is read from. -/
theorem recalls_single (x : Float32) : single.Recalls n (.single x) x := by
  refine ⟨fun hexact => .single (hexact x (List.mem_singleton_self x)),
    fun hexact frame _ => ?_⟩
  have hfinite : (Json.single x).Finite ↔ IsFinite x :=
    ⟨fun h => h x (List.mem_singleton_self x), fun h y hy => List.mem_singleton.1 hy ▸ h⟩
  rw [hfinite]
  by_cases hx : IsFinite x
  · exact iff_of_true ((Json.readsBack_iff x frame).1 (hexact x (List.mem_singleton_self x) hx)) hx
  · rw [Json.document_single_of_not hx]
    exact iff_of_false nofun hx

/-! ## Values that may be absent, lists -/

theorem map_some_eq_ok_iff {x : Except DocumentFault α} :
    some <$> x = .ok (some a) ↔ x = .ok a := by
  cases x with
  | error e => exact iff_of_false nofun nofun
  | ok b => exact ⟨fun h => by cases h; rfl, fun h => by cases h; rfl⟩

/-- A value that may be missing is recalled, if nothing that is there looks like null. -/
theorem recalls_nullable {f : α → Json} {o : Option α} (hnull : ∀ a, decoder .null ≠ .ok a)
    (h : ∀ a ∈ o, decoder.Recalls n (f a) a) :
    (nullable decoder).Recalls n (.ofOption f o) o := by
  cases o with
  | none => exact ⟨fun _ => .null, fun _ _ _ => iff_of_true rfl nofun⟩
  | some a =>
    have ha := h a rfl
    refine ⟨ha.legible, fun hexact frame hframe => (Iff.trans ?_ (ha.decode hexact hframe))⟩
    show nullable decoder ((f a).document frame) = .ok (some a) ↔ _
    cases (f a).document frame with
    | null => exact iff_of_false nofun (hnull a)
    | _ => exact map_some_eq_ok_iff

/-- A list is read if and only if each of its items is. -/
theorem each_eq_ok_iff {f : α → Json} {as : List α} {frame : Frame} :
    each decoder (Json.itemDocuments frame (as.map f)) = .ok as ↔
      ∀ a ∈ as, decoder ((f a).document frame) = .ok a := by
  induction as with
  | nil => exact iff_of_true rfl nofun
  | cons a as ih =>
    rw [List.map_cons, Json.itemDocuments, each, List.forall_mem_cons, ← ih, bind_eq_ok_iff]
    constructor
    · rintro ⟨b, hb, hrest⟩
      obtain ⟨bs, hbs, hrest⟩ := bind_eq_ok_iff.1 hrest
      cases hrest
      exact ⟨hb, hbs⟩
    · rintro ⟨ha, has⟩
      exact ⟨a, ha, bind_eq_ok_iff.2 ⟨as, has, rfl⟩⟩

/-- **A list is recalled if each of its members is.** -/
theorem recalls_list {f : α → Json} {as : List α} (h : ∀ a ∈ as, decoder.Recalls n (f a) a) :
    (list decoder).Recalls (n + 1) (.ofList f as) as := by
  refine ⟨fun hexact => .array fun item hitem => ?_, fun hexact frame hframe => ?_⟩
  · obtain ⟨a, ha, rfl⟩ := List.mem_map.1 hitem
    exact (h a ha).legible (hexact.item hitem)
  · have hlist : list decoder ((Json.ofList f as).document frame) = .ok as ↔
        each decoder (Json.itemDocuments frame.inner (as.map f)) = .ok as := by
      rw [Json.ofList, Json.document, list, hframe.admits]
      cases each decoder (Json.itemDocuments frame.inner (as.map f)) <;> rfl
    rw [hlist, each_eq_ok_iff, Json.ofList, Json.finite_array, List.forall_mem_map]
    refine forall₂_congr fun a ha => (h a ha).decode (hexact.item (List.mem_map_of_mem ha)) ?_
    exact hframe.inner

end Decoder

/-! ## Records -/

namespace RecordDecoder

/-- The entries that name the fields of a record. -/
def named (fields : List (String × Document)) : List (Document × Document) :=
  fields.map fun field => (.text (some field.1), field.2)

/-- A record decoder takes the fields with the given names, and makes of the given
ones the records that have a property. -/
structure Reads (r : RecordDecoder α) (names : List String) (fields : List (String × Document))
    (P : α → Prop) : Prop where
  entry_ne_none : ∀ name document state, r.entry? name document state ≠ none ↔ name ∈ names
  mem_names : ∀ field ∈ fields, field.1 ∈ names
  ofEntries : ∀ a, r.ofEntries (named fields) none = .ok a ↔ P a

/-- An entry with the name of a field. -/
theorem readEntries_cons {r : RecordDecoder α} {name : String} {d : Document} {s : r.State}
    {read : Except DocumentFault r.State} (h : r.entry? name d s = some read)
    (entries : List (Document × Document)) :
    r.readEntries ((.text (some name), d) :: entries) s = read >>= r.readEntries entries := by
  have hname : Decoder.string (.text (some name)) = .ok name := rfl
  rw [readEntries, hname]
  simp only [bind, Except.bind, h]

/-- Entries are read one after the other. -/
theorem readEntries_append (r : RecordDecoder α) (entries more : List (Document × Document))
    (s : r.State) : r.readEntries (entries ++ more) s =
      r.readEntries entries s >>= r.readEntries more := by
  induction entries generalizing s with
  | nil => rfl
  | cons entry entries ih =>
    obtain ⟨key, value⟩ := entry
    rw [List.cons_append, readEntries, readEntries]
    cases Decoder.string key with
    | error e => rfl
    | ok name =>
      simp only [bind, Except.bind]
      cases r.entry? name value s with
      | none => cases value.skip with
        | error e => rfl
        | ok _ => exact ih s
      | some read => cases read with
        | error e => rfl
        | ok t => exact ih t

theorem reads_pure (a : α) : (pure a : RecordDecoder α).Reads [] [] (a = ·) :=
  ⟨fun _ _ _ => iff_of_false nofun nofun, nofun, fun b =>
    ⟨fun h => by cases h; rfl, fun h => by cases h; rfl⟩⟩

/-- A field reads the entry with its own name, and no other. -/
theorem entry_field (name : String) (inner : Decoder α) (absent unlisted : Option α)
    (n : String) (d : Document) (s : Option α) :
    RecordDecoder.entry? (field name inner absent unlisted) n d s ≠ none ↔ n ∈ [name] := by
  rw [List.mem_singleton]
  show (if n = name then some _ else none : Option (Except DocumentFault (Option α))) ≠ none ↔ _
  by_cases h : n = name
  · rw [if_pos h]
    exact iff_of_true nofun h
  · rw [if_neg h]
    exact iff_of_false (not_not_intro rfl) h

/-- A field is read from its one entry. -/
theorem reads_field (name : String) (inner : Decoder α) (absent unlisted : Option α)
    (d : Document) : (field name inner absent unlisted).Reads [name] [(name, d)]
      (inner d = .ok ·) := by
  refine ⟨entry_field name inner absent unlisted, by simp, fun a => ?_⟩
  have hentry : RecordDecoder.entry? (field name inner absent unlisted) name d none =
      some (some <$> inner d) := if_pos rfl
  have hread : (field name inner absent unlisted).ofEntries (named [(name, d)]) none =
      (some <$> inner d >>= fun s => (field name inner absent unlisted).finish s) := by
    show ((field name inner absent unlisted).readEntries [(.text (some name), d)] none >>= _) = _
    rw [readEntries_cons hentry]
    cases inner d <;> rfl
  rw [hread]
  cases inner d with
  | error e => exact iff_of_false nofun nofun
  | ok b => exact ⟨fun h => by cases h; rfl, fun h => by cases h; rfl⟩

/-- A field that may be missing has its default without an entry. -/
theorem reads_absent (name : String) (inner : Decoder α) (a : α) (unlisted : Option α) :
    (field name inner (some a) unlisted).Reads [name] [] (a = ·) :=
  ⟨entry_field name inner (some a) unlisted, nofun, fun b =>
    ⟨fun h => by cases h; rfl, fun h => by cases h; rfl⟩⟩

section

variable {f : RecordDecoder (α → β)} {x : RecordDecoder α} {fields : List (String × Document)}

/-- An entry that the first of two decoders reads is left to it. -/
theorem entry_left {name : String} {d : Document} {s : f.State}
    {read : Except DocumentFault f.State} (h : f.entry? name d s = some read) (t : x.State) :
    RecordDecoder.entry? (sequence f x) name d (s, t) = some (read.map fun u => (u, t)) := by
  unfold sequence
  dsimp only
  rw [h]

/-- An entry that the first of two decoders does not read is left to the second. -/
theorem entry_right {name : String} {d : Document} {s : f.State} {t : x.State}
    {read : Except DocumentFault x.State} (hf : f.entry? name d s = none)
    (h : x.entry? name d t = some read) :
    RecordDecoder.entry? (sequence f x) name d (s, t) = some (read.map fun u => (s, u)) := by
  unfold sequence
  dsimp only
  rw [hf, h]
  rfl

/-- Entries of the first of two decoders do not touch the state of the second. -/
theorem readEntries_left (h : ∀ field ∈ fields, ∀ d s, f.entry? field.1 d s ≠ none)
    (s : f.State) (t : x.State) : (sequence f x).readEntries (named fields) (s, t) =
      (fun s => (s, t)) <$> f.readEntries (named fields) s := by
  induction fields generalizing s with
  | nil => rfl
  | cons field fields ih =>
    obtain ⟨read, hread⟩ := Option.ne_none_iff_exists'.1 (h field List.mem_cons_self field.2 s)
    show (sequence f x).readEntries ((.text (some field.1), field.2) :: named fields) (s, t) =
      _ <$> f.readEntries ((.text (some field.1), field.2) :: named fields) s
    rw [readEntries_cons (entry_left hread t), readEntries_cons hread]
    cases read with
    | error e => rfl
    | ok u => exact ih (fun field hfield => h field (List.mem_cons_of_mem _ hfield)) u

/-- Entries of the second of two decoders do not touch the state of the first. -/
theorem readEntries_right (hf : ∀ field ∈ fields, ∀ d s, f.entry? field.1 d s = none)
    (hx : ∀ field ∈ fields, ∀ d t, x.entry? field.1 d t ≠ none)
    (s : f.State) (t : x.State) : (sequence f x).readEntries (named fields) (s, t) =
      (fun t => (s, t)) <$> x.readEntries (named fields) t := by
  induction fields generalizing t with
  | nil => rfl
  | cons field fields ih =>
    obtain ⟨read, hread⟩ := Option.ne_none_iff_exists'.1 (hx field List.mem_cons_self field.2 t)
    show (sequence f x).readEntries ((.text (some field.1), field.2) :: named fields) (s, t) =
      _ <$> x.readEntries ((.text (some field.1), field.2) :: named fields) t
    rw [readEntries_cons (entry_right (hf field List.mem_cons_self field.2 s) hread),
      readEntries_cons hread]
    cases read with
    | error e => rfl
    | ok u =>
      exact ih (fun field hfield => hf field (List.mem_cons_of_mem _ hfield))
        (fun field hfield => hx field (List.mem_cons_of_mem _ hfield)) u

theorem named_append (fields others : List (String × Document)) :
    named (fields ++ others) = named fields ++ named others := List.map_append

/-- Two records that are read one after the other and put together. -/
theorem two_eq_ok_iff {σ τ : Type} {first : Except DocumentFault σ}
    {second : Except DocumentFault τ} {finish : σ → Except DocumentFault (α → β)}
    {finish' : τ → Except DocumentFault α} {b : β} :
    (do let s ← first; let t ← second; let g ← finish s; let a ← finish' t; return g a) = .ok b ↔
      ∃ g, first >>= finish = .ok g ∧ ∃ a, second >>= finish' = .ok a ∧ g a = b := by
  simp only [bind_eq_ok_iff]
  constructor
  · rintro ⟨s, hs, t, ht, g, hg, a, ha, hb⟩
    exact ⟨g, ⟨s, hs, hg⟩, a, ⟨t, ht, ha⟩, Except.ok.inj hb⟩
  · rintro ⟨g, ⟨s, hs, hg⟩, a, ⟨t, ht, ha⟩, rfl⟩
    exact ⟨s, hs, t, ht, g, hg, a, ha, rfl⟩

end

/-- Two decoders in sequence read the entries that either reads. -/
theorem entry_sequence_ne_none (f : RecordDecoder (α → β)) (x : RecordDecoder α) (name : String)
    (d : Document) (s : f.State) (t : x.State) :
    RecordDecoder.entry? (sequence f x) name d (s, t) ≠ none ↔
      f.entry? name d s ≠ none ∨ x.entry? name d t ≠ none := by
  cases hleft : f.entry? name d s with
  | some read =>
    rw [entry_left hleft]
    exact iff_of_true nofun (.inl nofun)
  | none =>
    cases hright : x.entry? name d t with
    | some read =>
      rw [entry_right hleft hright]
      exact iff_of_true nofun (.inr nofun)
    | none =>
      unfold sequence
      dsimp only
      rw [hleft, hright]
      simp

/-- Entries of the first of two decoders, then of the second, are read by each of them
for itself. -/
theorem ofEntries_sequence {f : RecordDecoder (α → β)} {x : RecordDecoder α}
    {fields others : List (String × Document)}
    (hf : ∀ field ∈ fields, ∀ d s, f.entry? field.1 d s ≠ none)
    (hnone : ∀ field ∈ others, ∀ d s, f.entry? field.1 d s = none)
    (hx : ∀ field ∈ others, ∀ d t, x.entry? field.1 d t ≠ none) :
    (sequence f x).ofEntries (named fields ++ named others) none = (do
      let s ← f.readEntries (named fields) f.start
      let t ← x.readEntries (named others) x.start
      let g ← f.finish s
      let a ← x.finish t
      return g a) := by
  have hread : (sequence f x).readEntries (named fields ++ named others) (f.start, x.start) =
      (do
        let s ← f.readEntries (named fields) f.start
        let t ← x.readEntries (named others) x.start
        return (s, t)) := by
    refine (readEntries_append (sequence f x) _ _ (f.start, x.start)).trans ?_
    rw [readEntries_left hf]
    cases f.readEntries (named fields) f.start with
    | error e => rfl
    | ok s => exact readEntries_right hnone hx s x.start
  show (sequence f x).readEntries _ (f.start, x.start) >>= (sequence f x).finish = _
  rw [hread]
  cases f.readEntries (named fields) f.start with
  | error e => rfl
  | ok s => cases x.readEntries (named others) x.start <;> rfl

/-- **Fields of one record after those of another.** -/
theorem Reads.seq {f : RecordDecoder (α → β)} {x : RecordDecoder α} {names more : List String}
    {fields others : List (String × Document)} {P : (α → β) → Prop} {Q : α → Prop}
    (hf : f.Reads names fields P) (hx : x.Reads more others Q) (hdisjoint : ∀ m ∈ more, m ∉ names) :
    (f <*> x).Reads (names ++ more) (fields ++ others) fun b => ∃ g, P g ∧ ∃ a, Q a ∧ g a = b := by
  have hnone : ∀ m ∉ names, ∀ d s, f.entry? m d s = none := fun m hm d s =>
    not_not.1 fun hsome => hm ((hf.entry_ne_none m d s).1 hsome)
  have hvalue := ofEntries_sequence
    (fun field hfield d s => (hf.entry_ne_none field.1 d s).2 (hf.mem_names field hfield))
    (fun field hfield d s => hnone _ (hdisjoint _ (hx.mem_names field hfield)) d s)
    (fun field hfield d t => (hx.entry_ne_none field.1 d t).2 (hx.mem_names field hfield))
  refine ⟨fun name d s => ?_, fun field hfield => ?_, fun b => ?_⟩
  · rw [List.mem_append, ← hf.entry_ne_none name d s.1, ← hx.entry_ne_none name d s.2]
    exact entry_sequence_ne_none f x name d s.1 s.2
  · exact List.mem_append.2
      ((List.mem_append.1 hfield).imp (hf.mem_names field) (hx.mem_names field))
  · rw [named_append]
    show (sequence f x).ofEntries (named fields ++ named others) none = .ok b ↔ _
    rw [hvalue, two_eq_ok_iff]
    exact exists_congr fun g => and_congr (hf.ofEntries g) (exists_congr fun a =>
      and_congr_left fun _ => hx.ofEntries a)

/-- The documents of fields, with their names. -/
def documents (frame : Frame) (fields : List (String × Json)) : List (String × Document) :=
  fields.map fun field => (field.1, field.2.document frame)

theorem named_documents (frame : Frame) (fields : List (String × Json)) :
    named (documents frame fields) = Json.fieldDocuments frame fields := by
  rw [Json.fieldDocuments_eq_map, named, documents, List.map_map]
  rfl

/-- In a frame with room for `n` levels, a record decoder makes of the given
fields the records that have a property. -/
structure Recalls (r : RecordDecoder α) (n : Nat) (frame : Frame) (names : List String)
    (fields : List (String × Json)) (P : α → Prop) : Prop where
  reads : r.Reads names (documents frame fields) P
  legible : ∀ field ∈ fields, field.2.Exact → field.2.Legible n

variable {n : Nat} {frame : Frame}

theorem recalls_pure (a : α) : (pure a : RecordDecoder α).Recalls n frame [] [] (a = ·) :=
  ⟨reads_pure a, nofun⟩

/-- A record that something is made of. -/
theorem Recalls.map {r : RecordDecoder α} {names : List String} {fields : List (String × Json)}
    {P : α → Prop} (h : r.Recalls n frame names fields P) (f : α → β) :
    (f <$> r).Recalls n frame names fields fun b => ∃ g, f = g ∧ ∃ a, P a ∧ g a = b :=
  ⟨(reads_pure f).seq h.reads (fun _ _ => List.not_mem_nil), h.legible⟩

section

variable {r : RecordDecoder (α → β)} {names : List String} {fields : List (String × Json)}
  {P : (α → β) → Prop}

/-- One more field. -/
theorem Recalls.field (h : r.Recalls n frame names fields P) {name : String} {inner : Decoder α}
    {absent unlisted : Option α} {j : Json} {a : α} (hinner : inner.Recalls n j a)
    (hname : name ∉ names := by decide) :
    (r <*> RecordDecoder.field name inner absent unlisted).Recalls n frame (names ++ [name])
      (fields ++ [(name, j)])
      fun b => ∃ g, P g ∧ ∃ a, inner (j.document frame) = .ok a ∧ g a = b := by
  refine ⟨?_, ?_⟩
  · have := h.reads.seq (reads_field name inner absent unlisted (j.document frame)) (by simpa)
    rw [documents, List.map_append]
    exact this
  · simp only [List.forall_mem_append, List.forall_mem_singleton]
    exact ⟨h.legible, hinner.legible⟩

/-- A field with a default that is not there. -/
theorem Recalls.absent (h : r.Recalls n frame names fields P) {name : String} {inner : Decoder α}
    {a : α} {unlisted : Option α} (hname : name ∉ names := by decide) :
    (r <*> RecordDecoder.field name inner (some a) unlisted).Recalls n frame (names ++ [name])
      fields fun b => ∃ g, P g ∧ ∃ a', a = a' ∧ g a' = b := by
  refine ⟨?_, h.legible⟩
  have := h.reads.seq (reads_absent name inner a unlisted) (by simpa)
  rwa [List.append_nil] at this

end

end RecordDecoder

namespace Decoder

variable {n : Nat} {a : α} {fields : List (String × Json)}

/-- The record made of the fields is recalled, whichever frame they are in, if
each of the fields is. -/
def RecallsFields (r : RecordDecoder α) (n : Nat) (frame : Frame) (fields : List (String × Json))
    (a : α) : Prop :=
  ∃ names P, r.Recalls n frame names fields P ∧
    ((∀ {γ : Type} {inner : Decoder γ} {j : Json} {c : γ}, inner.Recalls n j c →
      j ∈ fields.map Prod.snd → (inner (j.document frame) = .ok c ↔ j.Finite)) →
        (P a ↔ ∀ field ∈ fields, field.2.Finite))

variable {r : RecordDecoder α}

/-- All fields of a record that is recalled are legible. -/
theorem RecallsFields.legible {frame : Frame} (h : RecallsFields r n frame fields a)
    (hexact : (Json.object fields).Exact) : ∀ field ∈ fields, field.2.Legible n := by
  obtain ⟨names, P, hr, -⟩ := h
  exact fun field hfield => hr.legible field hfield (hexact.field hfield)

/-- **A record is read from its fields if and only if they are finite.** -/
theorem RecallsFields.ofEntries {frame : Frame} (h : RecallsFields r n frame fields a)
    (hframe : frame.Spans n) (hexact : (Json.object fields).Exact) :
    r.ofEntries (Json.fieldDocuments frame fields) none = .ok a ↔ (Json.object fields).Finite := by
  obtain ⟨names, P, hr, hP⟩ := h
  rw [← RecordDecoder.named_documents, Json.finite_object, ← hP, hr.reads.ofEntries a]
  intro γ inner j c hinner hj
  obtain ⟨field, hfield, rfl⟩ := List.mem_map.1 hj
  exact hinner.decode (hexact.field hfield) hframe

/-- **A record is recalled if its fields are.** -/
theorem recalls_record (h : ∀ frame, RecallsFields r n frame fields a) :
    r.decode.Recalls (n + 1) (.object fields) a := by
  refine ⟨fun hexact => .object ((h .held).legible hexact), fun hexact frame hframe => ?_⟩
  rw [Json.document, RecordDecoder.decode, hframe.admits]
  exact (h frame.inner).ofEntries hframe.inner hexact

/-- Behind the tag all entries are kept, in their order. -/
theorem splitTag_some {tag name : String} (known : String → Bool) {frame : Frame}
    (htag : ∀ field ∈ fields, field.1 ≠ tag)
    (hcheck : ∀ field ∈ fields, (field.2.document frame).check = .ok ())
    (others : List (Document × Document)) :
    splitTag tag known (Json.fieldDocuments frame fields) (some name) others =
      .ok (some name, others.reverse ++ Json.fieldDocuments .held fields) := by
  induction fields generalizing others with
  | nil =>
    rw [Json.fieldDocuments, Json.fieldDocuments, List.append_nil]
    rfl
  | cons field fields ih =>
    obtain ⟨key, value⟩ := field
    have hkey : key ≠ tag := htag (key, value) List.mem_cons_self
    rw [Json.fieldDocuments, splitTag]
    show (if key = tag then _ else _) = _
    rw [if_neg hkey, hcheck (key, value) List.mem_cons_self, Json.hold_document]
    refine (ih (fun field hfield => htag field (List.mem_cons_of_mem _ hfield))
      (fun field hfield => hcheck field (List.mem_cons_of_mem _ hfield)) _).trans ?_
    rw [List.reverse_cons, List.append_assoc]
    rfl

/-- **A choice with its tag is recalled if the fields beside the tag are.** -/
theorem recalls_tagged {tag name : String} {variants : List (String × TaggedVariant α)}
    (hname : variants.lookup name = some (.record r)) (htag : ∀ field ∈ fields, field.1 ≠ tag)
    (h : ∀ frame, RecallsFields r n frame fields a) :
    (tagged tag variants).Recalls (n + 1) (.object ((tag, .string name) :: fields)) a := by
  have hbeside : (Json.object ((tag, .string name) :: fields)).Exact → (Json.object fields).Exact :=
    fun hexact x hx => hexact x hx
  refine ⟨fun hexact => .object ?_, fun hexact frame hframe => ?_⟩
  · exact List.forall_mem_cons.2 ⟨.string name, (h .held).legible (hbeside hexact)⟩
  · have hlegible := (h .held).legible (hbeside hexact)
    have hsplit : splitTag tag (fun n => (variants.lookup n).isSome)
        ((.text (some tag), .text (some name)) :: Json.fieldDocuments frame.inner fields) none [] =
          .ok (some name, Json.fieldDocuments .held fields) := by
      rw [splitTag]
      show (if tag = tag then
        (if (variants.lookup name).isSome = true then _ else _) else _) = _
      rw [if_pos rfl, if_pos (by rw [hname]; rfl)]
      exact splitTag_some _ htag
        (fun field hfield => (hlegible field hfield).check hframe.inner) []
    rw [Json.document, tagged, hframe.admits]
    show (splitTag tag _ ((.text (some tag), .text (some name)) ::
      Json.fieldDocuments frame.inner fields) none [] >>= _) = _ ↔ _
    rw [hsplit]
    simp only [bind, Except.bind, Document.close, Option.bind, hname]
    show late (r.ofEntries (Json.fieldDocuments .held fields) none) = .ok a ↔
      (Json.object fields).Finite
    rw [← (h .held).ofEntries trivial (hbeside hexact)]
    cases r.ofEntries (Json.fieldDocuments .held fields) none with
    | ok b => rfl
    | error e => exact iff_of_false (fun h => by cases h) (fun h => by cases h)

/-- **What is recalled is read back from its text**, without blanks or with an
item on every line, if the numbers in it are finite, and only then. -/
theorem Recalls.decodeText_eq_ok_iff {decoder : Decoder α} {j : Json} (h : decoder.Recalls n j a)
    (hn : n ≤ Document.maxDepth) (hexact : j.Exact) :
    (decodeText decoder j.compact = .ok a ↔ j.Finite) ∧
      (decodeText decoder j.pretty = .ok a ↔ j.Finite) := by
  have hframe : (Frame.bracketed 1).Spans n := by
    show 1 + n ≤ Document.maxDepth + 1
    omega
  obtain ⟨hcompact, hpretty⟩ := (h.legible hexact).decodeText_eq_ok_iff decoder a
  exact ⟨hcompact.trans (h.decode hexact hframe), hpretty.trans (h.decode hexact hframe)⟩

/-- What holds no single precision numbers is always read back. -/
theorem Recalls.decodeText_pretty {decoder : Decoder α} {j : Json} (h : decoder.Recalls n j a)
    (hn : n ≤ Document.maxDepth) (hnone : j.singles = []) :
    decodeText decoder j.pretty = .ok a := by
  have hread := h.decodeText_eq_ok_iff hn
  simp only [Json.Exact, Json.Finite, hnone] at hread
  exact (hread (List.forall_mem_nil _)).2.2 (List.forall_mem_nil _)

end Decoder

end RuleVote
