import Fieldbook.Proofs.FormTree.Parallel
import Fieldbook.Proofs.Ownership.Matching
import Fieldbook.Query
import Mathlib.Data.List.Zip

/-!
# Proofs/Ownership/Values — what does not depend on the values of rows

Take a store, and another one that differs in the contents of some rows, none of them a rule or a
form.  The two stores are read side by side: of a row in both the same is read but for the value, or
neither can be read, for the same reason.  It is otherwise where one content can be read and the
other cannot, and a reading that comes to such a row fails (`Tables.Unread`).  Short of that, owners,
marks of deletion, commits, rights and forms are the same (`Alike.isDeleted`, `Alike.authorize`,
`Alike.formSource`): the walk to the root reads of a row who owns it and whether it is marked, and
takes a value for a rule only in a row of the class of rules.
-/

namespace Fieldbook

namespace Reading

variable {ε ε' α β : Type}

theorem mapError_ofExcept (f : ε → ε') (x : Except ε α) :
    (ofExcept x).mapError f = ofExcept (x.mapError f) := rfl

theorem mapError_pure (f : ε → ε') (a : α) : (pure a : Reading ε α).mapError f = pure a := rfl

theorem mapError_bind (g : ε → ε') (x : Reading ε α) (f : α → Reading ε β) :
    (x >>= f).mapError g = x.mapError g >>= fun a => (f a).mapError g := by
  obtain ⟨answer, lookups⟩ := x
  cases answer <;> rfl

end Reading

/-! ## Rows with other contents -/

/-- The entry with another value, where that may be. -/
def Entry.Alike (may : ResourceId → ResourceId → Prop) (e e' : Entry) : Prop :=
  e' = e ∨ may e.id e.classId ∧ ∃ v, e' = { e with value := v }

namespace Entry.Alike

variable {may : ResourceId → ResourceId → Prop} {e e' : Entry} (h : e.Alike may e')
include h

theorem id_eq : e'.id = e.id := by
  obtain rfl | ⟨-, v, rfl⟩ := h <;> rfl

theorem owner_eq : e'.owner = e.owner := by
  obtain rfl | ⟨-, v, rfl⟩ := h <;> rfl

theorem stamp_eq : e'.stamp = e.stamp := by
  obtain rfl | ⟨-, v, rfl⟩ := h <;> rfl

theorem deleted_eq : e'.deleted = e.deleted := by
  obtain rfl | ⟨-, v, rfl⟩ := h <;> rfl

end Entry.Alike

/-- The row with another content, where that may be. -/
def Row.Alike (may : ResourceId → ResourceId → Prop) (row row' : Row) : Prop :=
  row' = row ∨ may row.id row.classId ∧
    row' = { row with content := row'.content, replaced := row'.replaced }

namespace Row

variable {may : ResourceId → ResourceId → Prop} {row row' : Row} {e e' : Entry}

theorem Alike.id_eq (h : row.Alike may row') : row'.id = row.id := by
  rcases h with rfl | ⟨-, h⟩
  · rfl
  · rw [h]

theorem Alike.classId_eq (h : row.Alike may row') : row'.classId = row.classId := by
  rcases h with rfl | ⟨-, h⟩
  · rfl
  · rw [h]

/-- What is read of both rows differs in the value at most. -/
theorem Alike.entry (h : row.Alike may row') (read : row.read = .ok e) (read' : row'.read = .ok e') :
    e.Alike may e' := by
  rcases h with rfl | ⟨hmay, h⟩
  · exact .inl (Except.ok.inj (read'.symm.trans read))
  · obtain ⟨-, -, value, createdAt, -, hat, rfl⟩ := read_ok_iff.mp read
    obtain ⟨-, -, value', createdAt', -, hat', rfl⟩ := read_ok_iff.mp read'
    have hcreated : row'.createdAt = row.createdAt := by rw [h]
    rw [hcreated] at hat'
    obtain rfl := Option.some.inj (hat'.symm.trans hat)
    refine .inr ⟨hmay, value', ?_⟩
    rw [h]
    rfl

end Row

namespace Tables

/-- Tables whose rows may have other contents, where that may be. -/
structure Alike (may : ResourceId → ResourceId → Prop) (t t' : Tables) : Prop where
  rows : List.Forall₂ (Row.Alike may) t.rows t'.rows
  counter : t'.counter = t.counter
  commits : t'.commits = t.commits
  snapshots : t'.snapshots = t.snapshots

/-- The rows stand in the same place. -/
def Pairs (t t' : Tables) (row row' : Row) : Prop := (row, row') ∈ t.rows.zip t'.rows

/-- It is the failure of a row that may have another content, and the row in the same place of the
other tables does not fail so. -/
def Unread (may : ResourceId → ResourceId → Prop) (t t' : Tables) (e : StoreError) : Prop :=
  ∃ row row', t.Pairs t' row row' ∧ may row.id row.classId ∧ row.read = .error e ∧
    row'.read ≠ .error e

variable {may : ResourceId → ResourceId → Prop} {t t' : Tables} {row row' : Row} {id : ResourceId}

theorem Pairs.symm (h : t.Pairs t' row row') : t'.Pairs t row' row := by
  rw [Pairs, ← List.zip_swap]
  exact List.mem_map.mpr ⟨_, h, rfl⟩

namespace Alike

variable (h : t.Alike may t')
include h

theorem pairs : List.Forall₂ (t.Pairs t') t.rows t'.rows :=
  List.forall₂_iff_zip.mpr ⟨h.rows.length_eq, id⟩

theorem alike_of_pairs (hpair : t.Pairs t' row row') : row.Alike may row' :=
  (List.forall₂_iff_zip.mp h.rows).2 hpair

/-- **Rows are read side by side.** -/
theorem read (hpair : t.Pairs t' row row') :
    Parallel (t.Unread may t') (t'.Unread may t) (Entry.Alike may) row.read row'.read := by
  have halike := h.alike_of_pairs hpair
  obtain rfl | ⟨hmay, -⟩ := id halike
  · cases row'.read with
    | ok e => exact .ok (.inl rfl)
    | error e => exact .error e
  · cases read : row.read with
    | error e =>
      by_cases hsame : row'.read = .error e
      · rw [hsame]
        exact .error e
      · exact .first ⟨row, row', hpair, hmay, read, hsame⟩
    | ok entry =>
      cases read' : row'.read with
      | ok entry' => exact .ok (halike.entry read read')
      | error e =>
        refine .second ⟨row', row, hpair.symm, ?_, read', by rw [read]; nofun⟩
        rw [halike.id_eq, halike.classId_eq]
        exact hmay

theorem row? (id : ResourceId) : Option.Rel (t.Pairs t') (t.row? id) (t'.row? id) := by
  rw [Tables.row?, Tables.row?]
  have hrows := h.pairs
  generalize t.rows = rows at hrows
  generalize t'.rows = rows' at hrows
  induction hrows with
  | nil => exact .none
  | cons hpair _ ih =>
    rw [List.find?_cons, List.find?_cons, (h.alike_of_pairs hpair).id_eq]
    split
    · exact .some hpair
    · exact ih

end Alike

end Tables

/-! ## Stores with other contents -/

namespace Store

/-- Stores whose rows may have other contents; the connections know the same. -/
structure Alike (may : ResourceId → ResourceId → Prop) (s s' : Store) : Prop where
  tables : s.tables.Alike may s'.tables
  known : s'.known = s.known

/-- It is the failure of a reading that comes to a row which does not fail so in the other store. -/
def Lost (may : ResourceId → ResourceId → Prop) (s s' : Store) : WorkspaceError → Prop :=
  StoreError.Raised (s.tables.Unread may s'.tables)

namespace Alike

variable {may : ResourceId → ResourceId → Prop} {s s' : Store} {e e' : Entry} (h : s.Alike may s')
include h

theorem get? (id : ResourceId) : Parallel (s.tables.Unread may s'.tables)
    (s'.tables.Unread may s.tables) (Option.Rel (Entry.Alike may)) (s.get? id) (s'.get? id) := by
  rw [Store.get?, Store.get?]
  have hrow := h.tables.row? id
  generalize s.tables.row? id = found at hrow
  generalize s'.tables.row? id = found' at hrow
  cases hrow with
  | none => exact .ok .none
  | some hpair => exact (h.tables.read hpair).map fun _ _ he => .some he

theorem instances (c : ResourceId) : Parallel (s.tables.Unread may s'.tables)
    (s'.tables.Unread may s.tables) (List.Forall₂ (Entry.Alike may)) (s.instances c)
    (s'.instances c) := by
  refine Parallel.mapM (fun _ _ hpair => h.tables.read hpair) ?_
  refine List.rel_filter (fun row row' hpair => ?_) h.tables.pairs
  simp only [decide_eq_true_eq, (h.tables.alike_of_pairs hpair).classId_eq]

/-! ## Commits -/

theorem commitVersion? (m : Marker) : s'.commitVersion? m = s.commitVersion? m := by
  rw [Store.commitVersion?, Store.commitVersion?, h.known, Tables.commit?, Tables.commit?,
    h.tables.commits]

theorem committedVersion? (he : e.Alike may e') :
    s'.committedVersion? e' = s.committedVersion? e := by
  rw [Store.committedVersion?, Store.committedVersion?, he.stamp_eq]
  cases e.stamp with
  | committed v => rfl
  | pending m => simp only [h.commitVersion? m]

theorem resolveVersion (he : e.Alike may e') : s'.resolveVersion e' = s.resolveVersion e := by
  rw [Store.resolveVersion, Store.resolveVersion, he.stamp_eq]
  cases e.stamp with
  | committed v => rfl
  | pending m => simp only [Store.versionOf, h.commitVersion? m]

end Alike

end Store

/-! ## Owners -/

namespace Store.Alike

variable {may : ResourceId → ResourceId → Prop} {s s' : Store} (h : s.Alike may s')
include h

theorem ownerChain (id : ResourceId) :
    OwnerChain.Matches (s.tables.Unread may s'.tables) (s'.tables.Unread may s.tables)
      (s.ownerChain id) (s'.ownerChain id) := by
  refine OwnerChain.matches_ownerChain (fun _ => True) (fun y _ _ => ?_)
    (fun _ _ _ _ _ => trivial) trivial
  have hrow := h.tables.row? y
  generalize s.tables.row? y = found at hrow
  generalize s'.tables.row? y = found' at hrow
  cases hrow with
  | none => exact .none
  | some hpair =>
    refine .some ((h.tables.read hpair).map fun e e' he => ?_)
    rw [he.owner_eq, he.deleted_eq]

theorem isDeleted (id : ResourceId) :
    Parallel (s.Lost may s') (s'.Lost may s) (· = ·) (s.isDeleted id) (s'.isDeleted id) :=
  (h.ownerChain id).isDeleted id

theorem requireLive (id : ResourceId) :
    Parallel (s.Lost may s') (s'.Lost may s) (· = ·) (s.requireLive id) (s'.requireLive id) := by
  refine (h.isDeleted id).bind fun dead _ heq => ?_
  subst heq
  cases dead with
  | true => exact .error _
  | false => exact .ok rfl

end Store.Alike

/-! ## Rights -/

namespace Store

/-- The rule at a name, with what is done if there is none, as one reading after the other. -/
theorem ruledAt_eq (s : Store) (p : Principal) (asked id : ResourceId)
    (further : Reading WorkspaceError Authorization) :
    s.ruledAt p asked id further =
      Reading.ofExcept ((s.get? (AccessRule.idFor id p)).mapError .store) >>= fun
        | none => further
        | some e => if e.deleted then further
          else (s.resolveVersion e).mapError .store >>= fun v =>
            pure (.ofStoredRule p asked (e.toResource v)) := by
  rw [ruledAt, ruleAt?, Reading.mapError_bind, bind_assoc, Reading.mapError_ofExcept]
  refine congrArg (Reading.ofExcept _ >>= ·) (funext fun found => ?_)
  cases found with
  | none => rfl
  | some e =>
    dsimp only
    split
    · rfl
    · rw [Reading.mapError_bind, bind_assoc]
      rfl

namespace Alike

variable {may : ResourceId → ResourceId → Prop} {s s' : Store} (h : s.Alike may s')
include h

theorem ruledAt (hmay : ∀ id c, may id c → c ≠ AccessRule.classId) (p : Principal)
    (asked id : ResourceId) {further further' : Reading WorkspaceError Authorization}
    (hfurther : Reading.Parallel (s.Lost may s') (s'.Lost may s) (· = ·) further further') :
    Reading.Parallel (s.Lost may s') (s'.Lost may s) (· = ·) (s.ruledAt p asked id further)
      (s'.ruledAt p asked id further') := by
  have hstored : ∀ {e e' : Entry}, e.Alike may e' → ∀ v,
      Authorization.ofStoredRule p asked (e'.toResource v) =
        Authorization.ofStoredRule p asked (e.toResource v) := by
    intro e e' he v
    obtain rfl | ⟨hallowed, value, rfl⟩ := he
    · rfl
    · have hclass := hmay _ _ hallowed
      simp [Authorization.ofStoredRule, AccessRule.ofResource, Entry.toResource, hclass]
  rw [ruledAt_eq, ruledAt_eq]
  refine (Reading.Parallel.ofExcept (h.get? _).raised).bind fun found found' _ hfound => ?_
  cases hfound with
  | none => exact hfurther
  | some he =>
    simp only [he.deleted_eq, h.resolveVersion he, hstored he]
    split
    · exact hfurther
    · exact .refl _

/-- **Rights do not depend on values** of rows that are no rules. -/
theorem authorize (hmay : ∀ id c, may id c → c ≠ AccessRule.classId) (p : Principal)
    (id : ResourceId) : Reading.Parallel (s.Lost may s') (s'.Lost may s) (· = ·) (s.authorize p id)
      (s'.authorize p id) := by
  refine OwnerChain.Matches.authorize (Reading.Parallel (s.Lost may s') (s'.Lost may s) (· = ·))
    (h.ownerChain id) .refl (fun y _ _ hfurther => ?_) (fun e _ hlost => ?_) fun e _ hlost => ?_
  · exact h.ruledAt hmay p id y hfurther
  · exact .first ⟨e, hlost, rfl⟩
  · exact .second ⟨e, hlost, rfl⟩

/-! ## Forms -/

/-- **Forms do not depend on values** of rows that are no forms. -/
theorem formSource (hmay : ∀ id c, may id c → c ≠ Form.classId) :
    (FormSource.ofStore s).Parallel (s.Lost may s') (s'.Lost may s) (.ofStore s') := by
  have hstored : ∀ {e e' : Entry}, e.Alike may e' → ∀ v,
      Form.ofResource (e'.toResource v) = Form.ofResource (e.toResource v) := by
    intro e e' he v
    obtain rfl | ⟨hallowed, value, rfl⟩ := he
    · rfl
    · have hclass := hmay _ _ hallowed
      simp [Form.ofResource, Entry.toResource, hclass]
  refine ⟨fun id => ?_, h.isDeleted⟩
  simp only [FormSource.ofStore, resource?]
  rw [Reading.mapError_bind, Reading.mapError_bind, bind_assoc, bind_assoc,
    Reading.mapError_ofExcept, Reading.mapError_ofExcept]
  refine (Reading.Parallel.ofExcept (h.get? id).raised).bind fun found found' _ hfound => ?_
  cases hfound with
  | none => exact .refl _
  | some he =>
    simp only [Reading.mapError_bind, Reading.mapError_pure, bind_assoc, pure_bind,
      h.resolveVersion he, hstored he]
    exact .refl _

end Alike

end Store

end Fieldbook
