import CodeImpact.Proofs.DiffText

/-!
# Reading hunk headers

The header of a hunk names two ranges of lines in decimal. A line is read as a header only if it
starts so, and its numbers are those that are written; a start that is no number of 64 bits makes it
no header. A count of that kind does not: it is taken for one, like a count that is left out.
-/

namespace CodeImpact.Patch

/-- A range of lines as a header writes it. -/
@[ext] structure RangeText where
  start : List Char
  /-- The digits behind the comma, unless they are left out. -/
  count : Option (List Char)
  start_digits : IsDigits start
  count_digits : ∀ digits ∈ count, IsDigits digits

/-- A line that announces a hunk. -/
@[ext] structure HeaderText where
  old : RangeText
  new : RangeText
  /-- What follows the ranges. -/
  heading : List Char

namespace RangeText

def chars (t : RangeText) : List Char :=
  t.start ++ countChars t.count

/-- A range without a count. -/
def short (start : List Char) (hstart : IsDigits start) : RangeText :=
  ⟨start, none, hstart, by simp⟩

/-- A range with a count. -/
def full (start count : List Char) (hstart : IsDigits start) (hcount : IsDigits count) :
    RangeText :=
  ⟨start, some count, hstart, by simpa using hcount⟩

/-- The numbers are those that are written, and one for a count that is left out. -/
structure Means (t : RangeText) (start count : UInt64) : Prop where
  start : Text.Denotes t.start start
  written : ∀ digits ∈ t.count, Text.Denotes digits count
  omitted : t.count = none → count = 1

/-- A count is written that is no number of 64 bits. -/
def Unfit (t : RangeText) : Prop :=
  ∃ digits ∈ t.count, ∀ n, ¬ Text.Denotes digits n

/-- The numbers that are read: those that are meant, but one for a count that does not fit. -/
inductive ReadAs (t : RangeText) (start count : UInt64) : Prop
  | meant (h : t.Means start count)
  | unfit (hstart : Text.Denotes t.start start) (hunfit : t.Unfit) (hcount : count = 1)

end RangeText

namespace HeaderText

def chars (t : HeaderText) : List Char :=
  "@@ -".toList ++ (t.old.chars ++ (" +".toList ++ (t.new.chars ++ (" @@".toList ++ t.heading))))

/-- The hunk has the numbers that are written, and no lines yet. -/
structure Announces (t : HeaderText) (h : Hunk) : Prop where
  old : t.old.Means h.oldStart h.oldCount
  new : t.new.Means h.newStart h.newCount
  added : h.added = []
  deleted : h.deleted = []

/-- The hunk has the numbers that are read, and no lines yet. -/
structure ReadAs (t : HeaderText) (h : Hunk) : Prop where
  old : t.old.ReadAs h.oldStart h.oldCount
  new : t.new.ReadAs h.newStart h.newCount
  added : h.added = []
  deleted : h.deleted = []

/-- The counts that are written are numbers of 64 bits. -/
def Fits (t : HeaderText) : Prop :=
  ¬ t.old.Unfit ∧ ¬ t.new.Unfit

end HeaderText

/-! ## Ranges -/

instance (s : List Char) : Decidable (IsDigits s) :=
  decidable_of_iff (s.isEmpty = false ∧ s.all Text.isDecimal = true) <| by
    rw [List.isEmpty_eq_false_iff, List.all_eq_true]
    exact ⟨fun h => ⟨h.1, h.2⟩, fun h => ⟨h.ne_nil, h.isDecimal⟩⟩

/-- Digits that are read stand at the start of the text. -/
theorem digits?_eq_some {s digits rest : List Char} (h : digits? s = some (digits, rest)) :
    IsDigits digits ∧ s = digits ++ rest := by
  unfold digits? at h
  dsimp only at h
  split at h
  next => cases h
  next hne =>
    obtain ⟨rfl, rfl⟩ := Prod.mk.inj (Option.some.inj h)
    refine ⟨⟨by simpa using hne, fun c hc => List.mem_takeWhile_imp hc⟩, ?_⟩
    exact (List.prefix_iff_eq_append.1 (List.takeWhile_prefix _)).symm

/-- What is read as a range is one. -/
theorem range?_eq_some {s start rest : List Char} {count : Option (List Char)}
    (h : range? s = some (start, count, rest)) :
    ∃ t : RangeText, t.start = start ∧ t.count = count ∧ s = t.chars ++ rest := by
  simp only [range?, Option.bind_eq_bind, Option.bind_eq_some_iff, Prod.exists] at h
  obtain ⟨digits, after, hdigits, h⟩ := h
  obtain ⟨hstart, rfl⟩ := digits?_eq_some hdigits
  split at h
  next behind =>
    simp only [Option.bind_eq_some_iff, Prod.exists, Option.some.injEq, Prod.mk.injEq] at h
    obtain ⟨number, tail, hnumber, rfl, rfl, rfl⟩ := h
    obtain ⟨hcount, rfl⟩ := digits?_eq_some hnumber
    exact ⟨.full _ _ hstart hcount, rfl, rfl, by simp [RangeText.chars, RangeText.full, countChars]⟩
  next =>
    simp only [Option.some.injEq, Prod.mk.injEq] at h
    obtain ⟨rfl, rfl, rfl⟩ := h
    exact ⟨.short _ hstart, rfl, rfl, by simp [RangeText.chars, RangeText.short, countChars]⟩

namespace RangeText

variable {start count : UInt64}

/-- A range is read up to the blank behind it. -/
theorem range?_chars (t : RangeText) {rest : List Char} (h : rest.head? = some ' ') :
    range? (t.chars ++ rest) = some (t.start, t.count, rest) := by
  rw [chars, List.append_assoc]
  exact range?_append t.start_digits t.count_digits h

theorem means_short {digits : List Char} (h : IsDigits digits)
    (hstart : Text.Denotes digits start) : (short digits h).Means start 1 :=
  ⟨hstart, by simp [short], fun _ => rfl⟩

theorem means_full {digits number : List Char} (h : IsDigits digits) (h' : IsDigits number)
    (hstart : Text.Denotes digits start) (hcount : Text.Denotes number count) :
    (full digits number h h').Means start count :=
  ⟨hstart, by simpa [full] using hcount, by simp [full]⟩

theorem Means.not_unfit {t : RangeText} (h : t.Means start count) : ¬ t.Unfit := by
  rintro ⟨digits, hdigits, hnone⟩
  exact hnone count (h.written digits hdigits)

/-- Unless a count does not fit, a range is read as what it means. -/
theorem ReadAs.means {t : RangeText} (h : t.ReadAs start count) (hfits : ¬ t.Unfit) :
    t.Means start count := by
  cases h with
  | meant h => exact h
  | unfit _ hunfit _ => exact absurd hunfit hfits

/-- The numbers of a range, as they are looked up. -/
theorem readAs_iff (t : RangeText) :
    t.ReadAs start count ↔
      Text.word64? t.start = some start ∧ (t.count.bind Text.word64?).getD 1 = count := by
  rw [Text.word64?_eq_some_iff]
  constructor
  · rintro (⟨hstart, hwritten, homitted⟩ | ⟨hstart, ⟨digits, hdigits, hnone⟩, rfl⟩)
    · refine ⟨hstart, ?_⟩
      cases hcount : t.count with
      | none => exact (homitted hcount).symm
      | some digits =>
        rw [Option.bind_some, Text.word64?_eq_some_iff.2 (hwritten digits hcount)]
        rfl
    · have hread : Text.word64? digits = none :=
        Option.eq_none_iff_forall_ne_some.2 fun n hn => hnone n (Text.word64?_eq_some_iff.1 hn)
      rw [Option.mem_def.1 hdigits, Option.bind_some, hread]
      exact ⟨hstart, rfl⟩
  · rintro ⟨hstart, rfl⟩
    cases hcount : t.count with
    | none => exact .meant ⟨hstart, by simp [hcount], fun _ => rfl⟩
    | some digits =>
      cases hread : Text.word64? digits with
      | none =>
        refine .unfit hstart ⟨digits, hcount, fun n hn => ?_⟩ (by simp [hread])
        rw [Text.word64?_eq_some_iff.2 hn] at hread
        cases hread
      | some n =>
        refine .meant ⟨hstart, fun other hother => ?_, fun hnone => ?_⟩
        · obtain rfl := Option.some.inj (hcount.symm.trans hother)
          simpa [hread] using Text.word64?_eq_some_iff.1 hread
        · rw [hcount] at hnone
          cases hnone

end RangeText

/-! ## Headers -/

namespace HeaderText

/-- What is read as a header is one. -/
theorem exists_chars {line : List Char} {h : Hunk} (hread : header? line = some h) :
    ∃ t : HeaderText, line = t.chars := by
  simp only [header?, Option.bind_eq_bind, Option.bind_eq_some_iff, Prod.exists] at hread
  obtain ⟨_, hlead, _, _, _, hold, _, hplus, _, _, _, hnew, heading, hclose, -⟩ := hread
  obtain rfl := Text.afterLead?_eq_some hlead
  obtain ⟨old, -, -, rfl⟩ := range?_eq_some hold
  obtain rfl := Text.afterLead?_eq_some hplus
  obtain ⟨new, -, -, rfl⟩ := range?_eq_some hnew
  obtain rfl := Text.afterLead?_eq_some hclose
  exact ⟨⟨old, new, heading⟩, rfl⟩

/-- The starts decide whether a header is read. -/
theorem header?_chars (t : HeaderText) :
    header? t.chars =
      (Text.word64? t.old.start).bind fun oldStart =>
        (Text.word64? t.new.start).bind fun newStart =>
          some
            { oldStart := oldStart
              oldCount := (t.old.count.bind Text.word64?).getD 1
              newStart := newStart
              newCount := (t.new.count.bind Text.word64?).getD 1 } := by
  have hplus : ∀ s : List Char, (" +".toList ++ s).head? = some ' ' := fun _ => rfl
  have hclose : (" @@".toList ++ t.heading).head? = some ' ' := rfl
  unfold header? chars
  simp only [Text.afterLead?_append, Option.bind_eq_bind, Option.bind_some,
    RangeText.range?_chars _ (hplus _), RangeText.range?_chars _ hclose]

theorem header?_chars_iff (t : HeaderText) (h : Hunk) :
    header? t.chars = some h ↔ t.ReadAs h := by
  rw [header?_chars]
  simp only [Option.bind_eq_some_iff, Option.some.injEq]
  constructor
  · rintro ⟨oldStart, hold, newStart, hnew, rfl⟩
    exact ⟨t.old.readAs_iff.2 ⟨hold, rfl⟩, t.new.readAs_iff.2 ⟨hnew, rfl⟩, rfl, rfl⟩
  · obtain ⟨oldStart, oldCount, newStart, newCount, added, deleted⟩ := h
    rintro ⟨hold, hnew, rfl, rfl⟩
    obtain ⟨hold, rfl⟩ := t.old.readAs_iff.1 hold
    obtain ⟨hnew, rfl⟩ := t.new.readAs_iff.1 hnew
    exact ⟨oldStart, hold, newStart, hnew, rfl⟩

theorem Announces.readAs {t : HeaderText} {h : Hunk} (ht : t.Announces h) : t.ReadAs h :=
  ⟨.meant ht.old, .meant ht.new, ht.added, ht.deleted⟩

theorem readAs_iff_announces {t : HeaderText} (hfits : t.Fits) (h : Hunk) :
    t.ReadAs h ↔ t.Announces h := by
  constructor
  · rintro ⟨hold, hnew, hadded, hdeleted⟩
    exact ⟨hold.means hfits.1, hnew.means hfits.2, hadded, hdeleted⟩
  · exact Announces.readAs

theorem Announces.fits {t : HeaderText} {h : Hunk} (ht : t.Announces h) : t.Fits :=
  ⟨ht.old.not_unfit, ht.new.not_unfit⟩

/-- A line announces a hunk in one way only. -/
theorem chars_injective : Function.Injective chars := by
  intro t u h
  have hplus : ∀ s : List Char, (" +".toList ++ s).head? = some ' ' := fun _ => rfl
  have hclose : ∀ s : List Char, (" @@".toList ++ s).head? = some ' ' := fun _ => rfl
  have hold := congrArg range? (List.append_cancel_left h)
  rw [RangeText.range?_chars _ (hplus _), RangeText.range?_chars _ (hplus _)] at hold
  simp only [Option.some.injEq, Prod.mk.injEq] at hold
  obtain ⟨hstart, hcount, hrest⟩ := hold
  have hnew := congrArg range? (List.append_cancel_left hrest)
  rw [RangeText.range?_chars _ (hclose _), RangeText.range?_chars _ (hclose _)] at hnew
  simp only [Option.some.injEq, Prod.mk.injEq] at hnew
  obtain ⟨hstart', hcount', hrest'⟩ := hnew
  exact HeaderText.ext (RangeText.ext hstart hcount) (RangeText.ext hstart' hcount')
    (List.append_cancel_left hrest')

end HeaderText

/-- Lines are read as headers by what they write. -/
theorem header?_eq_some_iff {line : List Char} {h : Hunk} :
    header? line = some h ↔ ∃ t : HeaderText, line = t.chars ∧ t.ReadAs h := by
  constructor
  · intro hread
    obtain ⟨t, rfl⟩ := HeaderText.exists_chars hread
    exact ⟨t, rfl, (t.header?_chars_iff h).1 hread⟩
  · rintro ⟨t, rfl, ht⟩
    exact (t.header?_chars_iff h).2 ht

/-- A line that is read as a header starts with two ranges. Such a line gives the hunk with the
numbers that it writes, and no hunk if a start is no number of 64 bits; only a count that is none is
taken for one. -/
theorem headers_read_as_written (line : List Char) (h : Hunk) :
    (header? line = some h → ∃ t : HeaderText, line = t.chars) ∧
    ∀ t : HeaderText, line = t.chars →
      (header? line = some h ↔ t.ReadAs h) ∧
      (t.Fits → (header? line = some h ↔ t.Announces h)) := by
  refine ⟨HeaderText.exists_chars, ?_⟩
  rintro t rfl
  refine ⟨t.header?_chars_iff h, fun hfits => ?_⟩
  rw [t.header?_chars_iff, HeaderText.readAs_iff_announces hfits]

/-- A header with a count of zero and with the last start that fits. -/
def lastLineHeader : HeaderText where
  old := .full ['7'] ['0'] (by decide) (by decide)
  new := .short "18446744073709551615".toList (by decide)
  heading := " end".toList

theorem lastLineHeader_read :
    lastLineHeader.Fits ∧
      header? "@@ -7,0 +18446744073709551615 @@ end".toList =
        some
          { oldStart := 7
            oldCount := 0
            newStart := 18446744073709551615
            newCount := 1 } := by
  let hunk : Hunk :=
    { oldStart := 7
      oldCount := 0
      newStart := 18446744073709551615
      newCount := 1 }
  have hseven : Text.Denotes ['7'] 7 := ⟨by decide, List.all_eq_true.1 rfl, rfl⟩
  have hzero : Text.Denotes ['0'] 0 := ⟨by decide, List.all_eq_true.1 rfl, rfl⟩
  have hlast : Text.Denotes "18446744073709551615".toList 18446744073709551615 :=
    ⟨by decide, List.all_eq_true.1 rfl, by decide +kernel⟩
  have hannounces : lastLineHeader.Announces hunk :=
    ⟨RangeText.means_full (by decide) (by decide) hseven hzero, RangeText.means_short _ hlast,
      rfl, rfl⟩
  have hread := ((headers_read_as_written _ hunk).2 lastLineHeader rfl).2 hannounces.fits
  exact ⟨hannounces.fits, hread.2 hannounces⟩

/-- A header with a count that does not fit in 64 bits. -/
def oversizedHeader : HeaderText where
  old := .full ['5'] "18446744073709551616".toList (by decide) (by decide)
  new := .short ['5'] (by decide)
  heading := []

/-- No hunk has the numbers that it writes. -/
theorem not_announces_oversizedHeader {t : HeaderText} {h : Hunk}
    (hline : "@@ -5,18446744073709551616 +5 @@".toList = t.chars) : ¬ t.Announces h := by
  intro hannounces
  obtain rfl : oversizedHeader = t := HeaderText.chars_injective hline
  refine hannounces.fits.1 ⟨"18446744073709551616".toList, rfl, fun n hn => ?_⟩
  have hvalue := hn.value
  have hword := n.toNat_lt_size
  rw [← hvalue] at hword
  revert hword
  decide +kernel

/-- A count that does not fit is taken for one, so a line is read as a header whose numbers are not
those that it writes. -/
theorem oversized_count_read_as_one :
    header? "@@ -5,18446744073709551616 +5 @@".toList =
        some { oldStart := 5, oldCount := 1, newStart := 5, newCount := 1 } ∧
      ¬ ∃ t : HeaderText, "@@ -5,18446744073709551616 +5 @@".toList = t.chars ∧
        t.Announces { oldStart := 5, oldCount := 1, newStart := 5, newCount := 1 } := by
  refine ⟨by decide +kernel, ?_⟩
  rintro ⟨t, hline, hannounces⟩
  exact not_announces_oversizedHeader hline hannounces

end CodeImpact.Patch
