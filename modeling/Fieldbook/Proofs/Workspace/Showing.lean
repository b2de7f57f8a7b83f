import Fieldbook.Proofs.Calendar.Dates
import Fieldbook.Proofs.Workspace.Columns

/-!
# Proofs/Workspace/Showing — what the rows of an answer show

A column answers for a row by the getter of its type (`Column.Reads`), unless it has a gap there
(`Column.exists_reads_iff`).  What a row of a query shows of the column is this answer, but no infinite
number (`Column.shown?_eq_some_iff`): such a number is no gap, and yet it is left out.

Dates are shown as year, month and day, of four, two and two digits if the year has no more
(`Date.plain_text_iff`).
-/

namespace Fieldbook

/-! ## Infinite numbers -/

namespace Double

/-- One of the two infinite numbers. -/
def IsInfinite (x : Double) : Prop := x = infinity ∨ x = infinity.neg

instance (x : Double) : Decidable x.IsInfinite := inferInstanceAs (Decidable (_ ∨ _))

theorem exponentField_eq (x : Double) : x.exponentField = x.bits.toNat / 2 ^ 52 % 2 ^ 11 := by
  have hmask : (0x7ff : UInt64).toNat = 2 ^ 11 - 1 := rfl
  have hshift : (52 : UInt64).toNat % 64 = 52 := rfl
  rw [exponentField, UInt64.toNat_and, UInt64.toNat_shiftRight, hmask, hshift,
    Nat.and_two_pow_sub_one_eq_mod, Nat.shiftRight_eq_div_pow]

theorem fractionField_eq (x : Double) : x.fractionField = x.bits.toNat % 2 ^ 52 := by
  have hmask : (0xfffffffffffff : UInt64).toNat = 2 ^ 52 - 1 := rfl
  rw [fractionField, UInt64.toNat_and, hmask, Nat.and_two_pow_sub_one_eq_mod]

theorem isInfinite_iff (x : Double) :
    x.IsInfinite ↔ x.exponentField = 2047 ∧ x.fractionField = 0 := by
  constructor
  · rintro (rfl | rfl) <;> decide
  · obtain ⟨bits⟩ := x
    rw [exponentField_eq, fractionField_eq]
    rintro ⟨hexponent, hfraction⟩
    have hlt : bits.toNat < 2 ^ 64 := bits.toNat_lt
    have hbits : bits.toNat = 0x7ff0000000000000 ∨ bits.toNat = 0xfff0000000000000 := by
      dsimp only at hexponent hfraction
      omega
    refine hbits.imp (fun h => ?_) fun h => ?_
    · exact congrArg Double.mk (UInt64.toNat_inj.mp h)
    · exact congrArg Double.mk (UInt64.toNat_inj.mp h)

/-- An infinite number is no gap. -/
theorem IsInfinite.isNaN {x : Double} (h : x.IsInfinite) : x.isNaN = false := by
  rcases h with rfl | rfl <;> decide

/-- **A number is finite** unless it is NaN or infinite. -/
theorem isFinite_iff (x : Double) : x.isFinite = true ↔ x.isNaN = false ∧ ¬x.IsInfinite := by
  rw [isInfinite_iff]
  simp only [isFinite, isNaN, bne_iff_ne, Bool.and_eq_false_iff, beq_eq_false_iff_ne,
    bne_eq_false_iff_eq]
  omega

end Double

/-! ## Dates -/

namespace Date

/-- A date is written in four, two and two digits. -/
def Plain (cs : List Char) : Prop :=
  ∃ year month day : List Char, cs = year ++ '-' :: (month ++ '-' :: day) ∧ year.length = 4 ∧
    month.length = 2 ∧ day.length = 2 ∧ ∀ c ∈ year ++ (month ++ day), c.isDigit

theorem plain_text_iff (d : Date) :
    Plain d.text.toList ↔ 0 ≤ d.civil.year ∧ d.civil.year ≤ 9999 := by
  rw [text, String.toList_ofList, chars, yearChars]
  constructor
  · rintro ⟨_ | ⟨c, year⟩, month, day, heq, hyear, -, -, hdigits⟩
    · cases hyear
    · by_contra hsigned
      -- a sign would stand where the first digit is
      have hdigit : c.isDigit := hdigits c (by simp)
      rw [if_neg hsigned] at heq
      split at heq
      · obtain ⟨rfl, -⟩ := List.cons.inj heq
        cases hdigit
      · obtain ⟨rfl, -⟩ := List.cons.inj heq
        cases hdigit
  · intro hyear
    obtain ⟨hmonth, hday⟩ := d.month_day_lt
    have hyear' : d.civil.year.natAbs < Nat.pow 10 4 := by
      have hpow : Nat.pow 10 4 = 10000 := rfl
      omega
    refine ⟨Text.padded 4 d.civil.year.natAbs, Text.padded 2 d.civil.month,
      Text.padded 2 d.civil.day, by simp [hyear], Text.length_padded (by decide) hyear',
      Text.length_padded (by decide) hmonth, Text.length_padded (by decide) hday, fun c hc => ?_⟩
    rcases List.mem_append.mp hc with hc | hc
    · exact Text.isDigit_of_mem_padded hc
    · exact (List.mem_append.mp hc).elim Text.isDigit_of_mem_padded Text.isDigit_of_mem_padded

end Date

/-! ## Columns -/

namespace Column

variable {column : Column} {i : Nat} {v : Shown}

/-- A getter of the column answers with something that is not missing; a date counts by its text. -/
inductive Reads (column : Column) (i : Nat) : Shown → Prop where
  | text {s : String} (h : column.text? i = some s) : Reads column i (.text s)
  | number (h : (column.number i).isNaN = false) : Reads column i (.number (column.number i))
  | flag {b : Bool} (h : column.flag? i = some b) : Reads column i (.flag b)
  | date {d : Date} (h : column.date? i = some d) : Reads column i (.text d.text)

theorem reads_iff : column.Reads i v ↔ (∃ s, column.text? i = some s ∧ v = .text s) ∨
    ((column.number i).isNaN = false ∧ v = .number (column.number i)) ∨
    (∃ b, column.flag? i = some b ∧ v = .flag b) ∨
    ∃ d, column.date? i = some d ∧ v = .text d.text := by
  constructor
  · rintro (h | h | h | h)
    · exact .inl ⟨_, h, rfl⟩
    · exact .inr (.inl ⟨h, rfl⟩)
    · exact .inr (.inr (.inl ⟨_, h, rfl⟩))
    · exact .inr (.inr (.inr ⟨_, h, rfl⟩))
  · rintro (⟨s, h, rfl⟩ | ⟨h, rfl⟩ | ⟨b, h, rfl⟩ | ⟨d, h, rfl⟩)
    · exact .text h
    · exact .number h
    · exact .flag h
    · exact .date h

/-- Of a column that has no numbers the number is NaN. -/
theorem nan_facts : Double.nan.isNaN = true ∧ ¬Double.nan.IsInfinite := by decide

/-- **What a row shows of a column** is what a getter answers, but no infinite number. -/
theorem shown?_eq_some_iff :
    column.shown? i = some v ↔ column.Reads i v ∧ ¬(column.number i).IsInfinite := by
  obtain ⟨hnan, hfinite⟩ := nan_facts
  rw [reads_iff]
  cases column with
  | texts cells | flags cells | dates cells =>
    simp [shown?, text?, number, flag?, date?, hnan, hfinite, eq_comm]
  | numbers cells =>
    simp only [shown?, text?, flag?, date?, reduceCtorEq, false_and, exists_false, false_or, or_false,
      Option.ite_none_right_eq_some, Option.some.injEq, Double.isFinite_iff, eq_comm (b := v)]
    exact and_right_comm

/-- A row of a column that has no numbers there shows what a getter answers. -/
theorem exists_reads_iff_isSome (h : column.number i = .nan) :
    (∃ v, column.Reads i v) ↔ (column.shown? i).isSome := by
  have hfinite : ¬(column.number i).IsInfinite := h ▸ nan_facts.2
  simp only [Option.isSome_iff_exists, shown?_eq_some_iff, and_iff_left hfinite]

/-- **A row that is not missing** in a column is one for which a getter answers. -/
theorem exists_reads_iff : (∃ v, column.Reads i v) ↔ column.isMissing i = false := by
  cases column with
  | numbers cells => simp [reads_iff, isMissing, text?, number, flag?, date?]
  | texts cells | flags cells | dates cells =>
    rw [exists_reads_iff_isSome rfl]
    simp [shown?, isMissing]

end Column

/-! ## Rows -/

namespace ColumnSet

variable {c : ColumnSet} {i : Nat} {field : String} {v : Shown}

/-- What a row shows, column by column. -/
theorem mem_row_iff (h : Keyed.Ascending c.columns) : (field, v) ∈ c.row i ↔
    ∃ column, c.column? field = some column ∧ column.shown? i = some v := by
  simp only [row, List.mem_filterMap, Prod.exists, Option.map_eq_some_iff, Prod.mk.injEq, column?,
    Keyed.find?_eq_some_iff h.nodup_keys]
  constructor
  · rintro ⟨_, column, hmem, _, hshown, rfl, rfl⟩
    exact ⟨column, hmem, hshown⟩
  · rintro ⟨column, hmem, hshown⟩
    exact ⟨field, column, hmem, v, hshown, rfl, rfl⟩

/-- A row shows its columns in their order. -/
theorem ascending_row (h : Keyed.Ascending c.columns) (i : Nat) : Keyed.Ascending (c.row i) := by
  refine List.Pairwise.filterMap _ (fun x y hlt => ?_) h
  simp only [Option.map_eq_some_iff]
  rintro _ ⟨_, -, rfl⟩ _ ⟨_, -, rfl⟩
  exact hlt

end ColumnSet

namespace Workspace

variable {w : Workspace} {q : Query} {c : ColumnSet}

/-- **What the rows of an answer show.** There are as many as the answer says. A row has the keys in
ascending order, and under a key what the getter of its column answers, unless this is an infinite
number: so the keys of a row are those of the columns that are not missing there, but for the infinite
numbers. A date is shown in four, two and two digits if its year has no more, and reads as the date. -/
theorem rows_show (w : Workspace) (q : Query) (c : ColumnSet) (h : (w.query q).answer = .ok c) :
    c.rows.length = c.numRows ∧
    (∀ i < c.numRows, ∃ row, c.rows[i]? = some row ∧ Keyed.Ascending row ∧
      (∀ field v, (field, v) ∈ row ↔ ∃ column, c.column? field = some column ∧
        column.Reads i v ∧ ¬(column.number i).IsInfinite) ∧
      ∀ field column, c.column? field = some column →
        (((∃ v, (field, v) ∈ row) ↔ column.isMissing i = false) ↔
          ¬(column.number i).IsInfinite)) ∧
    ∀ d : Date, Date.read? d.text = some d ∧
      (Date.Plain d.text.toList ↔ 0 ≤ d.civil.year ∧ d.civil.year ≤ 9999) := by
  have hascending : Keyed.Ascending c.columns := by
    obtain ⟨tree, plans, filter, -, rfl⟩ := query_ok_iff.mp h
    exact (Keyed.kept_ofList _).ascending
  refine ⟨by simp [ColumnSet.rows], fun i hi => ?_, fun d => ⟨d.read?_text, d.plain_text_iff⟩⟩
  have hrow : ∀ field v, (field, v) ∈ c.row i ↔ ∃ column, c.column? field = some column ∧
      column.Reads i v ∧ ¬(column.number i).IsInfinite := by
    intro field v
    simp only [ColumnSet.mem_row_iff hascending, Column.shown?_eq_some_iff]
  refine ⟨c.row i, by simp [ColumnSet.rows, hi], ColumnSet.ascending_row hascending i, hrow, ?_⟩
  intro field column hcolumn
  rw [← Column.exists_reads_iff]
  simp only [hrow, hcolumn, Option.some.injEq, exists_eq_left', exists_and_right]
  constructor
  · intro hall hinfinite
    exact (hall.mpr ⟨_, .number hinfinite.isNaN⟩).2 hinfinite
  · exact fun hfinite => and_iff_left hfinite

/-- A survey with the rate of a site, which is infinite for the first one and missing for the
second. -/
def rateHome : Workspace :=
  let home : ResourceId := ⟨"c0198c3f2a7b07d1e9f5b4c6d8e0f1a2b"⟩
  (empty 16).run
    [.createRootFolder ⟨"alice"⟩ 0 home "Home",
      .putForm ⟨"alice"⟩ 0 ⟨⟨"site"⟩, home, "Site", none,
        [.field ⟨⟨"rate"⟩, "Rate", none, .quantity none, false, false⟩]⟩,
      .put ⟨"alice"⟩ 0 (.new ⟨"s1"⟩ home ⟨"site"⟩ [("rate", .quantity .infinity none)]),
      .put ⟨"alice"⟩ 0 (.new ⟨"s2"⟩ home ⟨"site"⟩ .empty)]

def siteRates : Query := ⟨⟨"site"⟩, ["rate", "_id"], ⟨"alice"⟩, none⟩

def rates : ColumnSet :=
  ⟨[("_id", .texts [some "s1", some "s2"]), ("rate", .numbers [.infinity, .nan])], 2⟩

theorem query_siteRates : (rateHome.query siteRates).answer = .ok rates := by
  rw [← toOption_eq_some]
  decide +kernel

theorem rows_show_siteRates : (rateHome.query siteRates).answer = .ok rates ∧
    rates.rows.length = 2 ∧ ∃ row, rates.rows[1]? = some row ∧
      ((∃ v, ("rate", v) ∈ row) ↔ (Column.numbers [.infinity, .nan]).isMissing 1 = false) := by
  obtain ⟨hlength, hrows, -⟩ := rows_show rateHome siteRates rates query_siteRates
  obtain ⟨row, hrow, -, -, hkeys⟩ := hrows 1 (by decide)
  have hfinite : ¬((Column.numbers [.infinity, .nan]).number 1).IsInfinite := by decide
  exact ⟨query_siteRates, hlength, row, hrow, (hkeys "rate" _ rfl).mpr hfinite⟩

/-- **A number that is no gap may be left out:** the infinite rate. -/
theorem exists_present_not_shown : (rateHome.query siteRates).answer = .ok rates ∧
    ∃ row column, rates.rows[0]? = some row ∧ rates.column? "rate" = some column ∧
      column.isMissing 0 = false ∧ ∀ v, ("rate", v) ∉ row := by
  refine ⟨query_siteRates, rates.row 0, .numbers [.infinity, .nan], rfl, rfl, by decide, fun v => ?_⟩
  have hrow : rates.row 0 = [("_id", .text "s1")] := by decide
  rw [hrow]
  simp

end Workspace

end Fieldbook
