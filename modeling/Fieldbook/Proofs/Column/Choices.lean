import Fieldbook.Proofs.Column.Cells
import Fieldbook.Proofs.Keyed
import Mathlib.Data.List.Sort

/-!
# Proofs/Column/Choices — a cell of choices shows the set that is selected

A selection is a list of names, in any order, with repetitions, and with names that no item has.
The cell is made from where its items stand: those places are sorted and freed of repetitions, so
they ascend strictly, and ascending lists with the same members are equal.  Items with names of
their own that are selected therefore show in the order of the items (`selectedPlaces_eq`,
`choiceCell_eq`), and of the selection nothing counts but which items it names (`choices_show`).
-/

namespace Fieldbook

/-! ## Lists without repetitions -/

theorem mem_eraseReps_loop {α : Type} [BEq α] [LawfulBEq α] {a b : α} {as acc : List α} :
    b ∈ List.eraseRepsBy.loop (· == ·) a as acc ↔ b = a ∨ b ∈ as ∨ b ∈ acc := by
  induction as generalizing a acc with
  | nil => simp [List.eraseRepsBy.loop, or_comm]
  | cons c as ih =>
    rw [List.eraseRepsBy.loop, List.mem_cons]
    split
    · next heq =>
      obtain rfl := eq_of_beq heq
      rw [ih, or_assoc, or_self_left]
    · rw [ih, List.mem_cons]
      tauto

theorem mem_eraseReps {α : Type} [BEq α] [LawfulBEq α] {a : α} {as : List α} :
    a ∈ as.eraseReps ↔ a ∈ as := by
  cases as with
  | nil => exact .rfl
  | cons b as =>
    rw [List.mem_cons]
    exact mem_eraseReps_loop.trans (by simp)

-- What is kept so far stands backwards in `acc`, and all of it is below the element at hand.
theorem ascending_eraseReps_loop {i : Nat} {is acc : List Nat} (h : (i :: is).Pairwise (· ≤ ·))
    (hacc : (i :: acc).Pairwise (· > ·)) :
    (List.eraseRepsBy.loop (· == ·) i is acc).Pairwise (· < ·) := by
  induction is generalizing i acc with
  | nil => exact List.pairwise_reverse.mpr hacc
  | cons j is ih =>
    obtain ⟨hle, hrest⟩ := List.pairwise_cons.mp h
    rw [List.eraseRepsBy.loop]
    split
    · next heq =>
      obtain rfl := eq_of_beq heq
      exact ih hrest hacc
    · next hne =>
      have hlt : i < j := Nat.lt_of_le_of_ne (hle j List.mem_cons_self) (ne_of_beq_false hne)
      refine ih hrest (List.pairwise_cons.mpr ⟨fun k hk => ?_, hacc⟩)
      rcases List.mem_cons.mp hk with rfl | hk
      · exact hlt
      · exact Nat.lt_trans ((List.pairwise_cons.mp hacc).1 k hk) hlt

/-- **A sorted list without repetitions** ascends. -/
theorem ascending_eraseReps {is : List Nat} (h : is.Pairwise (· ≤ ·)) :
    is.eraseReps.Pairwise (· < ·) := by
  cases is with
  | nil => exact .nil
  | cons i is => exact ascending_eraseReps_loop h (List.pairwise_singleton _ i)

theorem ResourceId.text_inj {a b : ResourceId} : a.text = b.text ↔ a = b := by
  refine ⟨fun h => ?_, congrArg text⟩
  cases a
  cases b
  exact congrArg mk h

namespace Filling

variable {items : List EnumItem} {selected : List ResourceId}

/-! ## Places -/

/-- The items that are selected, each with its place. -/
def chosenAt (items : List EnumItem) (selected : List ResourceId) : List (EnumItem × Nat) :=
  items.zipIdx.filter fun x => x.1.id ∈ selected

/-- The items that are selected, in the order of the items. -/
def chosen (items : List EnumItem) (selected : List ResourceId) : List EnumItem :=
  items.filter fun item => item.id ∈ selected

theorem chosen_eq (items : List EnumItem) (selected : List ResourceId) :
    chosen items selected = (chosenAt items selected).map (·.1) := by
  have hitems : items.zipIdx.map (·.1) = items := List.zipIdx_map_fst 0 items
  rw [chosen, ← hitems, List.filter_map, hitems]
  rfl

theorem getElem?_of_mem_chosenAt {x : EnumItem × Nat} (h : x ∈ chosenAt items selected) :
    items[x.2]? = some x.1 :=
  List.mem_zipIdx_iff_getElem?.mp (List.mem_of_mem_filter h)

theorem labelAt?_of_mem_chosenAt {x : EnumItem × Nat} (h : x ∈ chosenAt items selected) :
    labelAt? items x.2 = some x.1.label := by
  rw [labelAt?, getElem?_of_mem_chosenAt h, Option.map_some]

theorem labels_chosenAt (items : List EnumItem) (selected : List ResourceId) :
    ((chosenAt items selected).map (·.2)).filterMap (labelAt? items) =
      (chosen items selected).map (·.label) := by
  rw [chosen_eq, List.filterMap_map, List.map_map, ← List.filterMap_eq_map]
  exact List.filterMap_congr fun x hx => labelAt?_of_mem_chosenAt hx

theorem mem_chosenAt {i : Nat} : i ∈ (chosenAt items selected).map (·.2) ↔
    ∃ item, items[i]? = some item ∧ item.id ∈ selected := by
  simp [chosenAt, List.mem_zipIdx_iff_getElem?]

theorem ascending_chosenAt (items : List EnumItem) (selected : List ResourceId) :
    ((chosenAt items selected).map (·.2)).Pairwise (· < ·) := by
  have hplaces : items.zipIdx.map (·.2) = List.range' 0 items.length := List.zipIdx_map_snd 0 items
  have hsub : ((chosenAt items selected).map (·.2)).Sublist (items.zipIdx.map (·.2)) :=
    List.filter_sublist.map _
  rw [hplaces] at hsub
  exact (List.pairwise_lt_range' (s := 0) (n := items.length)).sublist hsub

section

variable (hdistinct : (items.map (·.id)).Nodup)
include hdistinct

/-- Items of one name stand in one place. -/
theorem eq_of_id_eq {i j : Nat} {item other : EnumItem} (hi : items[i]? = some item)
    (hj : items[j]? = some other) (hid : item.id = other.id) : i = j := by
  have hlt : i < (items.map (·.id)).length := by
    rw [List.length_map]
    exact (List.getElem?_eq_some_iff.mp hi).1
  refine (List.getElem?_inj hlt hdistinct).mp ?_
  rw [List.getElem?_map, List.getElem?_map, hi, hj, Option.map_some, Option.map_some, hid]

/-- Each item is found under its name. -/
theorem find?_itemPlaces {id : ResourceId} {i : Nat} :
    Keyed.find? id.text (itemPlaces items) = some i ↔
      ∃ item, items[i]? = some item ∧ item.id = id := by
  have hmem : ∀ x, x ∈ items.zipIdx.map (fun x => (x.1.id.text, x.2)) ↔
      ∃ item, items[x.2]? = some item ∧ item.id.text = x.1 := by
    rintro ⟨key, j⟩
    simp [List.mem_zipIdx_iff_getElem?]
  rw [itemPlaces, Keyed.find?_ofList_iff, hmem]
  · simp only [ResourceId.text_inj]
  · intro x y hx hy hkey
    obtain ⟨item, hitem, hid⟩ := (hmem x).mp hx
    obtain ⟨other, hother, hid'⟩ := (hmem y).mp hy
    refine eq_of_id_eq hdistinct hitem hother (ResourceId.text_inj.mp ?_)
    rw [hid, hid', hkey]

theorem mem_selectedPlaces {i : Nat} : i ∈ selectedPlaces items selected ↔
    ∃ item, items[i]? = some item ∧ item.id ∈ selected := by
  rw [selectedPlaces, mem_eraseReps, List.mem_mergeSort, List.mem_filterMap]
  simp only [find?_itemPlaces hdistinct]
  constructor
  · rintro ⟨_, hid, item, hitem, rfl⟩
    exact ⟨item, hitem, hid⟩
  · rintro ⟨item, hitem, hid⟩
    exact ⟨_, hid, item, hitem, rfl⟩

/-- **The places of a selection** are those of the items that it names. -/
theorem selectedPlaces_eq (selected : List ResourceId) :
    selectedPlaces items selected = (chosenAt items selected).map (·.2) := by
  have hsorted : (selectedPlaces items selected).Pairwise (· < ·) := by
    refine ascending_eraseReps ((List.pairwise_mergeSort ?_ ?_ _).imp Nat.le_of_ble_eq_true)
    · intro a b c hab hbc
      exact Nat.ble_eq_true_of_le ((Nat.le_of_ble_eq_true hab).trans (Nat.le_of_ble_eq_true hbc))
    · intro a b
      simpa using Nat.le_total a b
  exact hsorted.eq_of_mem_iff (ascending_chosenAt items selected) fun i =>
    (mem_selectedPlaces hdistinct).trans mem_chosenAt.symm

end

/-! ## Cells -/

/-- What items that are selected show in a cell: the first label, or all of them. -/
def shownChosen : Cardinality → List EnumItem → Option String
  | _, [] => none
  | .single, item :: _ => some item.label
  | .multiple, items => some (", ".intercalate (items.map (·.label)))

/-- **The cell of a choice** shows the items that are selected. -/
theorem choiceCell_eq (hdistinct : (items.map (·.id)).Nodup) (cardinality : Cardinality)
    (selected : List ResourceId) : choiceCell cardinality items (.choice selected) =
      shownChosen cardinality (chosen items selected) := by
  have hlabels := labels_chosenAt items selected
  simp only [choiceCell, selectedPlaces_eq hdistinct, chosen_eq] at hlabels ⊢
  cases hchosen : chosenAt items selected with
  | nil => cases cardinality <;> rfl
  | cons x rest =>
    rw [hchosen] at hlabels
    cases cardinality with
    | single => exact labelAt?_of_mem_chosenAt (hchosen ▸ List.mem_cons_self)
    | multiple => exact congrArg (fun labels => some (", ".intercalate labels)) hlabels

/-- Selections that name the same items choose the same. -/
theorem chosen_congr {selected' : List ResourceId}
    (h : ∀ item ∈ items, item.id ∈ selected ↔ item.id ∈ selected') :
    chosen items selected = chosen items selected' :=
  List.filter_congr fun item hitem => decide_eq_decide.mpr (h item hitem)

/-- A row that selects among the items of a field. -/
def Selects (source : CellSource) (rows : List Submission) (i : Nat)
    (selected : List ResourceId) : Prop :=
  ∃ row, rows[i]? = some row ∧ source.read row = some (.choice selected)

/-- A row of the column shows what its selection is read as. -/
theorem cell_of_selects {source : CellSource} {rows : List Submission} {i : Nat}
    (cardinality : Cardinality) (h : Selects source rows i selected) :
    ((choices cardinality items).column source rows).cells[i]? =
      some (.text (choiceCell cardinality items (.choice selected))) := by
  obtain ⟨row, hrow, hread⟩ := h
  rw [(column_eq _ source rows).2, List.getElem?_map, hrow, Option.map_some, cell, hread,
    Option.bind_some]

/-- What the column of a choice shows of selections among some items. -/
structure ShowsSelected (cardinality : Cardinality) (items : List EnumItem) : Prop where
  /-- Rows that select the same items have the same cell, in whatever columns and however their
  selections are written. -/
  same {source source' : CellSource} {rows rows' : List Submission} {i i' : Nat}
    {selected selected' : List ResourceId} :
    Selects source rows i selected → Selects source' rows' i' selected' →
    (∀ item ∈ items, item.id ∈ selected ↔ item.id ∈ selected') →
    ((choices cardinality items).column source rows).cells[i]? =
      ((choices cardinality items).column source' rows').cells[i']?
  /-- Where several may be selected, the cell has the labels of those that are, in the order of the
  items, and is a gap if none is. -/
  multiple {source : CellSource} {rows : List Submission} {i : Nat} {selected : List ResourceId} :
    cardinality = .multiple → Selects source rows i selected →
    ((choices cardinality items).column source rows).cells[i]? =
      some (.text (if chosen items selected = [] then none
        else some (", ".intercalate ((chosen items selected).map (·.label)))))
  /-- Where one may be selected, the cell has the label of the first item that is. -/
  single {source : CellSource} {rows : List Submission} {i : Nat} {selected : List ResourceId} :
    cardinality = .single → Selects source rows i selected →
    ((choices cardinality items).column source rows).cells[i]? =
      some (.text ((items.find? fun item => item.id ∈ selected).map (·.label)))

/-- **The column of a choice shows the set that is selected.** -/
theorem choices_show (items : List EnumItem) (hdistinct : (items.map (·.id)).Nodup)
    (cardinality : Cardinality) :
    ofType (.choice cardinality items) = .ok (some (.choices cardinality items)) ∧
      ShowsSelected cardinality items := by
  refine ⟨rfl, fun hrow hrow' hsame => ?_, ?_, ?_⟩
  · rw [cell_of_selects cardinality hrow, cell_of_selects cardinality hrow',
      choiceCell_eq hdistinct, choiceCell_eq hdistinct, chosen_congr hsame]
  · rintro source rows i selected rfl hrow
    rw [cell_of_selects _ hrow, choiceCell_eq hdistinct]
    cases chosen items selected <;> rfl
  · rintro source rows i selected rfl hrow
    rw [cell_of_selects _ hrow, choiceCell_eq hdistinct, ← List.head?_filter]
    change _ = some (Cell.text ((chosen items selected).head?.map _))
    cases chosen items selected <;> rfl

/-- Three levels to choose from. -/
def levels : List EnumItem := [⟨⟨"a"⟩, "Alpha"⟩, ⟨⟨"b"⟩, "Beta"⟩, ⟨⟨"c"⟩, "Gamma"⟩]

/-- Two rows that select the first and the last of them. -/
def levelRows : List Submission :=
  let time : Instant := ⟨1, 1, by decide, by decide⟩
  [⟨⟨"v1"⟩, [("level", .choice [⟨"c"⟩, ⟨"a"⟩])], ⟨"alice"⟩, time⟩,
    ⟨⟨"v2"⟩, [("level", .choice [⟨"a"⟩, ⟨"x"⟩, ⟨"c"⟩, ⟨"a"⟩])], ⟨"alice"⟩, time⟩]

/-- Both show the same labels. -/
theorem choices_show_levels :
    ((choices .multiple levels).column (.path ["level"]) levelRows).cells[0]? =
        some (.text (some "Alpha, Gamma")) ∧
      ((choices .multiple levels).column (.path ["level"]) levelRows).cells[0]? =
        ((choices .multiple levels).column (.path ["level"]) levelRows).cells[1]? := by
  have hdistinct : (levels.map (·.id)).Nodup := by decide
  have hfirst : Selects (.path ["level"]) levelRows 0 [⟨"c"⟩, ⟨"a"⟩] := ⟨_, rfl, rfl⟩
  have hsecond : Selects (.path ["level"]) levelRows 1 [⟨"a"⟩, ⟨"x"⟩, ⟨"c"⟩, ⟨"a"⟩] := ⟨_, rfl, rfl⟩
  obtain ⟨-, hshows⟩ := choices_show levels hdistinct .multiple
  exact ⟨(hshows.multiple rfl hfirst).trans (by decide), hshows.same hfirst hsecond (by decide)⟩

end Filling

end Fieldbook
