import Fieldbook.Proofs.Store.RowSteps
import Mathlib.Data.List.Nodup
import Mathlib.Data.List.Perm.Subperm

/-!
# Proofs/Store/Keeping — rows keep their identity and their place

No operation removes a row or moves it: new rows come last, so the names in the table of now are the
first ones in any later table (`ids_prefix_of_later`).  Answers that list rows follow the table, and
hence keep the order of what they have in common (`Store.Continues`).  Who wrote a row first, and
when, stays with it whatever is written over it (`created_of_later`).
-/

namespace Fieldbook

/-! ## Lists within a list -/

section Within

variable {α : Type} [DecidableEq α] {l l' before after : List α}

/-- A list within a list without repetitions is what is left of it by its members. -/
theorem filter_mem_eq (h : l.Sublist after) (hd : after.Nodup) : after.filter (· ∈ l) = l := by
  have hself : l.filter (· ∈ l) = l := List.filter_eq_self.mpr fun a ha => decide_eq_true ha
  have hsub : l.Sublist (after.filter (· ∈ l)) := List.sublist_filter_iff.mpr ⟨l, h, hself.symm⟩
  have hback : after.filter (· ∈ l) ⊆ l :=
    fun a ha => of_decide_eq_true (List.mem_filter.mp ha).2
  have hle : (after.filter (· ∈ l)).length ≤ l.length :=
    (List.subperm_of_subset (hd.filter _) hback).length_le
  exact (hsub.eq_of_length_le hle).symm

/-- **Two lists within one** have what they have in common in the same order. -/
theorem filter_mem_comm (h : l.Sublist after) (h' : l'.Sublist after) (hd : after.Nodup) :
    l.filter (· ∈ l') = l'.filter (· ∈ l) := by
  have hboth : (after.filter (· ∈ l)).filter (· ∈ l') = (after.filter (· ∈ l')).filter (· ∈ l) := by
    rw [List.filter_filter, List.filter_filter]
    exact List.filter_congr fun x _ => Bool.and_comm _ _
  rwa [filter_mem_eq h hd, filter_mem_eq h' hd] at hboth

omit [DecidableEq α] in
/-- **What a list goes on with** stands after all that it began with. -/
theorem pairwise_new_last (h : before <+: after) (hd : after.Nodup) :
    after.Pairwise fun a b => b ∈ before → a ∈ before := by
  obtain ⟨new, rfl⟩ := h
  obtain ⟨-, -, hout⟩ := List.nodup_append.mp hd
  refine List.pairwise_append.mpr ⟨?_, ?_, fun a ha b _ _ => ha⟩
  · exact List.pairwise_of_forall_mem_list fun a ha b _ _ => ha
  · exact List.pairwise_of_forall_mem_list fun a _ b hb hmem => absurd rfl (hout b hmem b hb)

end Within

namespace Store

variable {s s' : Store} {op : Operation} {receipt : Receipt} {t t' : Tables} {id : ResourceId}
  {p : Principal} {now : Int} {row : Row} {es es' : List Entry}

/-! ## Places -/

theorem ids_prefix_of_writtenAll {rs : List Resource} {vs : List Nat}
    (h : t.WrittenAll p now rs vs t') : t.rows.map (·.id) <+: t'.rows.map (·.id) := by
  induction h with
  | nil => exact List.prefix_rfl
  | cons _ _ _ ih => exact (Row.ids_prefix_write _).trans ih

/-- **An operation removes no row and moves none.** -/
theorem Performed.keeps_ids (h : Performed s op receipt s') :
    s.tables.rows.map (·.id) <+: s'.tables.rows.map (·.id) := by
  cases h with
  | increment | commitAgain | commit => exact List.prefix_rfl
  | put | putPending => exact Row.ids_prefix_write _
  | putBatch all => exact ids_prefix_of_writtenAll all
  | delete => exact (Row.keeps_mark _ _).ids_prefix_map _
  | index => exact (Row.keeps_restamp _ _).ids_prefix_map _

theorem ids_prefix_perform (s : Store) (op : Operation) :
    s.tables.rows.map (·.id) <+: (s.perform op).2.tables.rows.map (·.id) := by
  rcases hrun : s.perform op with ⟨e | receipt, s'⟩
  · exact tables_of_perform_error hrun ▸ List.prefix_refl _
  · exact (performed_of_perform hrun).keeps_ids

/-- **The rows of now are the first ones of any later table.** -/
theorem ids_prefix_of_later (h : s.Later s') (hs : s.Reachable) :
    s.tables.rows.map (·.id) <+: s'.tables.rows.map (·.id) := by
  refine h.keeps (fun t => s.tables.rows.map (·.id) <+: t.rows.map (·.id)) hs ?_
    (List.prefix_refl _)
  exact fun _ _ hstart => hstart.trans (ids_prefix_perform _ _)

/-! ## Creation -/

/-- The row of `id` was written first by `p`, at the time `now`. -/
def Created (t : Tables) (id : ResourceId) (p : Principal) (now : Int) : Prop :=
  ∃ row, t.row? id = some row ∧ row.createdBy = p ∧ row.createdAt = now

theorem RowStep.created {after : Option Row} (h : RowStep t id op after)
    (hrow : t.row? id = some row) :
    ∃ row', after = some row' ∧ row'.createdBy = row.createdBy ∧ row'.createdAt = row.createdAt := by
  cases h with
  | kept => exact ⟨row, hrow, rfl, rfl⟩
  | put | pended =>
    rw [hrow]
    exact ⟨_, rfl, rfl, rfl⟩
  | deleted _ found | indexed _ found =>
    obtain rfl := Option.some.inj (hrow.symm.trans found)
    exact ⟨_, rfl, rfl, rfl⟩

theorem created_perform (h : Created s.tables id p now) (op : Operation) :
    Created (s.perform op).2.tables id p now := by
  obtain ⟨row, hrow, rfl, rfl⟩ := h
  rcases rowStep_perform s op id with hsame | hstep
  · exact ⟨row, hsame.trans hrow, rfl, rfl⟩
  · exact hstep.created hrow

/-- **Who wrote a row first, and when,** stays with it. -/
theorem created_of_later (h : s.Later s') (hs : s.Reachable) (hcreated : Created s.tables id p now) :
    Created s'.tables id p now :=
  h.keeps (Created · id p now) hs (fun _ _ hcreated => created_perform hcreated _) hcreated

/-- **A row that is new** was written by the operation. -/
theorem RowStep.first (h : RowStep t id op (some row)) (hnone : t.row? id = none) :
    ∃ r, op.Writes row.createdBy row.createdAt r ∧ r.id = id := by
  generalize hafter : some row = after at h
  cases h with
  | kept => cases hafter.trans hnone
  | @put op p now r v writes named =>
    rw [hnone] at hafter
    obtain rfl := Option.some.inj hafter
    exact ⟨r, writes, named⟩
  | @pended p now m r named =>
    rw [hnone] at hafter
    obtain rfl := Option.some.inj hafter
    exact ⟨r, ⟨rfl, rfl, rfl⟩, named⟩
  | deleted _ found | indexed _ found => cases found.symm.trans hnone

/-! ## Lists of rows -/

/-- The entries are an answer of the store: what a resource owns, or what is of a class. -/
def Lists (s : Store) (es : List Entry) : Prop :=
  ∃ id, s.children id = .ok es ∨ s.instances id = .ok es

theorem ids_of_mapM_read {rows : List Row} (h : rows.mapM Row.read = .ok es) :
    es.map (·.id) = rows.map (·.id) := by
  obtain ⟨hall, rfl⟩ := Row.mapM_read_ok.mp h
  rw [List.map_filterMap, ← List.filterMap_eq_map]
  refine List.filterMap_congr fun row hmem => ?_
  obtain ⟨e, he⟩ := hall row hmem
  rw [he]
  exact congrArg some (Row.id_of_read he)

theorem Lists.sublist (h : s.Lists es) : (es.map (·.id)).Sublist (s.tables.rows.map (·.id)) := by
  obtain ⟨id, h | h⟩ := h
  · rw [ids_of_mapM_read h]
    exact List.filter_sublist.map _
  · rw [ids_of_mapM_read h]
    exact List.filter_sublist.map _

/-! ## What becomes of the rows -/

/-- A store that has gone on from another one, in what becomes of its rows. -/
structure Continues (s s' : Store) : Prop where
  /-- No row is removed or moved, and new ones come last. -/
  names : s.tables.rows.map (·.id) <+: s'.tables.rows.map (·.id)
  created : ∀ id p now, Created s.tables id p now → Created s'.tables id p now
  /-- What two lists have in common they have in the same order. -/
  order : ∀ es es', s.Lists es → s'.Lists es' →
    (es.map (·.id)).filter (· ∈ es'.map (·.id)) = (es'.map (·.id)).filter (· ∈ es.map (·.id))
  /-- New rows are listed after those that were there. -/
  newest : ∀ es', s'.Lists es' →
    es'.Pairwise fun e e' => (s.tables.row? e'.id).isSome → (s.tables.row? e.id).isSome

theorem continues_of_later (h : s.Later s') (hs : s.Reachable) : s.Continues s' := by
  have hstart := ids_prefix_of_later h hs
  have hd : (s'.tables.rows.map (·.id)).Nodup := (h.reachable hs).keeps.1.tables.distinct
  have hmem : ∀ id, (s.tables.row? id).isSome ↔ id ∈ s.tables.rows.map (·.id) := fun id =>
    Row.isSome_find?_iff.trans List.mem_map.symm
  refine ⟨hstart, fun id p now => created_of_later h hs, fun es es' hes hes' => ?_,
    fun es' hes' => ?_⟩
  · exact filter_mem_comm (hes.sublist.trans hstart.sublist) hes'.sublist hd
  · simp only [hmem]
    exact List.pairwise_map.mp ((pairwise_new_last hstart hd).sublist hes'.sublist)

/-! ## One operation -/

theorem Operation.Writes.names {r : Resource} (h : op.Writes p now r) (t : Tables) :
    op.Names t r.id := by
  cases op with
  | put | putPending =>
    obtain ⟨-, -, rfl⟩ := h
    rfl
  | putBatch => exact ⟨r, h.2.2, rfl⟩
  | increment | delete | commit | index => exact h.elim

namespace RowStep

variable {after : Option Row} {r : Resource}

theorem frame (h : RowStep t id op after) (hnot : ¬op.Names t id) : after = t.row? id := by
  cases h with
  | kept => rfl
  | put writes named => exact absurd (named ▸ writes.names t) hnot
  | pended named => exact absurd named hnot
  | deleted => exact absurd rfl hnot
  | indexed _ found waits => exact absurd ⟨_, found, waits⟩ hnot

/-- What is written is live. -/
theorem live (h : RowStep t id op after) (hwrites : op.Writes p now r) (hid : r.id = id) :
    ∃ row, after = some row ∧ row.deleted = false := by
  cases h with
  | kept unnamed => exact absurd (hid ▸ hwrites.names t) unnamed
  | put | pended => exact ⟨_, rfl, Row.afterWrite_deleted _⟩
  | deleted | indexed => exact hwrites.elim

/-- What is deleted stays in its row. -/
theorem kept_of_delete (h : RowStep t id (.delete p id) after) (hrow : t.row? id = some row) :
    ∃ v : Nat, after = some { row with deleted := true, stamp := .committed v } := by
  cases h with
  | kept unnamed => exact absurd rfl unnamed
  | put writes => exact writes.elim
  | deleted v found =>
    obtain rfl := Option.some.inj (hrow.symm.trans found)
    exact ⟨v, rfl⟩

end RowStep

/-- What an operation may do with the row of `id`. -/
structure ActsOn (s : Store) (op : Operation) (id : ResourceId) : Prop where
  /-- A row that is new is the operation's own, and the operation's it stays. -/
  first : s.tables.row? id = none → ∀ row, (s.perform op).2.tables.row? id = some row →
    ∃ p now r, op.Writes p now r ∧ r.id = id ∧
      ∀ s', (s.perform op).2.Later s' → Created s'.tables id p now
  frame : ¬op.Names s.tables id → (s.perform op).2.tables.row? id = s.tables.row? id
  /-- What is written is live. -/
  revives : ∀ p now r, op.Writes p now r → r.id = id →
    ∃ row, (s.perform op).2.tables.row? id = some row ∧ row.deleted = false
  /-- A deletion keeps everything of a row but its mark and its stamp. -/
  deletes : ∀ p row, op = .delete p id → s.tables.row? id = some row →
    ∃ v : Nat, (s.perform op).2.tables.row? id =
      some { row with deleted := true, stamp := .committed v }

theorem actsOn_of_reachable (hs : s.Reachable) (hfresh : op.IsFresh s.tables) (id : ResourceId) :
    s.ActsOn op id := by
  have hs' : (s.perform op).2.Reachable := .write hs hfresh
  rcases hrun : s.perform op with ⟨e | receipt, s'⟩ <;> rw [hrun] at hs'
  · -- a refused operation names something that is not there, and changes nothing
    have hrow : s'.tables.row? id = s.tables.row? id := by rw [tables_of_perform_error hrun]
    have hrefused : op.IsRefused s.tables :=
      (perform_error_iff hs.keeps.1 op).mp ⟨e, congrArg Prod.fst hrun⟩
    refine ⟨?_, ?_, ?_, ?_⟩ <;> rw [hrun]
    · intro hnone row hfound
      cases hfound.symm.trans (hrow.trans hnone)
    · exact fun _ => hrow
    · intro p now r hwrites _
      cases op with
      | put | putPending | putBatch => exact hrefused.elim
      | increment | delete | commit | index => exact hwrites.elim
    · rintro p row rfl hfound
      cases hfound.symm.trans hrefused
  · have hstep := (performed_of_perform hrun).rowStep id
    refine ⟨?_, ?_, ?_, ?_⟩ <;> rw [hrun]
    · intro hnone row hrow
      rw [hrow] at hstep
      obtain ⟨r, hwrites, hid⟩ := hstep.first hnone
      refine ⟨row.createdBy, row.createdAt, r, hwrites, hid, fun s'' hlater => ?_⟩
      exact created_of_later hlater hs' ⟨row, hrow, rfl, rfl⟩
    · exact hstep.frame
    · exact fun p now r hwrites hid => hstep.live hwrites hid
    · rintro p row rfl hfound
      exact hstep.kept_of_delete hfound

/-! ## Identity and place -/

/-- **Rows keep their identity and their place.**  Whatever is done to a store that has been
reached, no row is removed or moved, each remains the creation of whoever wrote it first, and answers
that list rows keep their order.  Each operation changes the rows that it names alone: a write makes
its row live, and a deletion leaves what the row holds. -/
theorem rows_keep_place (h : s.Reachable) : (∀ s', s.Later s' → s.Continues s') ∧
    ∀ op, op.IsFresh s.tables → ∀ id, s.ActsOn op id :=
  ⟨fun _ hlater => continues_of_later hlater h, fun _ hfresh id => actsOn_of_reachable h hfresh id⟩

/-- The busy note is written over by a stranger and deleted, and another note is written after it. -/
theorem rows_keep_place_busyNote :
    let note : Resource := .new ⟨"note"⟩ ⟨"home"⟩ ⟨"_folder"⟩ .empty
    let other : Resource := .new ⟨"other"⟩ ⟨"home"⟩ ⟨"_folder"⟩ .empty
    let later := busyNote.after
      [.put ⟨"dave"⟩ 5 note, .put ⟨"dave"⟩ 6 other, .delete ⟨"dave"⟩ ⟨"note"⟩]
    busyNote.Reachable ∧ Created busyNote.tables ⟨"note"⟩ ⟨"alice"⟩ 0 ∧
      Created later.tables ⟨"note"⟩ ⟨"alice"⟩ 0 ∧
      later.tables.rows.map (·.id) = [⟨"note"⟩, ⟨"other"⟩] ∧
      ((busyNote.perform (.delete ⟨"dave"⟩ ⟨"note"⟩)).2.tables.row? ⟨"note"⟩).isSome := by
  intro note other later
  obtain ⟨hcontinues, hacts⟩ := rows_keep_place reachable_busyNote
  have hcreated : Created busyNote.tables ⟨"note"⟩ ⟨"alice"⟩ 0 :=
    ⟨_, rfl, rfl, rfl⟩
  have hlater : busyNote.Later later :=
    .write (.write (.write .refl trivial) trivial) trivial
  have hdeletes := (hacts (.delete ⟨"dave"⟩ ⟨"note"⟩) trivial ⟨"note"⟩).deletes ⟨"dave"⟩ _ rfl rfl
  obtain ⟨v, hv⟩ := hdeletes
  exact ⟨reachable_busyNote, hcreated, (hcontinues later hlater).created _ _ _ hcreated,
    by decide +kernel, by rw [hv]; rfl⟩

end Store

end Fieldbook
