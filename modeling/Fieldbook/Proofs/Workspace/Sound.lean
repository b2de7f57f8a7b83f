import Fieldbook.Proofs.AccessRule
import Fieldbook.Proofs.Workspace.Changes
import Fieldbook.Proofs.Workspace.Checks

/-!
# Proofs/Workspace/Sound — what stands in the rows of a workspace

Rules are rows among others, and nothing but the calls of a workspace keeps them apart.
`Row.Sound` says what every row is that calls have written: its content is the binary form of a
record, its version is one, and where its class or its name is that of a rule, it stores a rule,
committed, under the name that belongs to its owner and principal.  `Tables.Sound` adds that every
owner is there.

In sound tables a rule that counts for a principal at a resource is stored at that resource
(`stores_of_counted?`), so whoever has a right has it on a resource that is there
(`has_of_governs`).  This carries soundness through a grant, the one call that writes a rule at a
resource of the caller's choice (`sound_of_change`).
-/

namespace Fieldbook

/-- The row stores a rule, committed, under the name that belongs to it. -/
structure Row.Stores (row : Row) (rule : AccessRule) : Prop where
  classId : row.classId = AccessRule.classId
  id : row.id = AccessRule.idFor row.owner rule.principal
  content : row.content = .encoded rule.toResource.value
  stamp : ∃ v, row.stamp = .committed v

/-- A rule that is stored can be read. -/
theorem Row.Stores.record?_eq {row : Row} {rule : AccessRule} (h : row.Stores rule) :
    row.content.record? = some rule.toResource.value := by
  rw [h.content]
  exact Content.record?_of_shallow rule.nesting_le

/-- A row as the calls of a workspace write it. -/
structure Row.Sound (row : Row) : Prop where
  kept : row.replaced = none
  written : ∃ value, row.content = .encoded value
  stamped : ∀ v, row.stamp = .committed v → 0 < v
  rule : row.classId = AccessRule.classId ∨ AccessRule.isRuleId row.id = true →
    ∃ rule, row.Stores rule

namespace Tables

/-- A name that a resource may be owned by. -/
def Has (t : Tables) (id : ResourceId) : Prop := id = .root ∨ (t.row? id).isSome

/-- Every row is sound, and every owner is there. -/
structure Sound (t : Tables) : Prop where
  rows : ∀ row ∈ t.rows, row.Sound
  owners : ∀ row ∈ t.rows, t.Has row.owner

theorem sound_empty : Tables.empty.Sound where
  rows := fun _ h => nomatch h
  owners := fun _ h => nomatch h

variable {t t' : Tables} {id : ResourceId} {row : Row}

theorem Sound.sound_row (ht : t.Sound) (h : t.row? id = some row) : row.Sound :=
  ht.rows row (OwnerChain.row?_mem h)

theorem Sound.has_owner (ht : t.Sound) (h : t.row? id = some row) : t.Has row.owner :=
  ht.owners row (OwnerChain.row?_mem h)

/-- A row under the name of a rule stores one. -/
theorem Sound.stores (ht : t.Sound) {r : ResourceId} {q : Principal}
    (h : t.row? (AccessRule.idFor r q) = some row) : ∃ rule, row.Stores rule := by
  refine (ht.sound_row h).rule (.inr ?_)
  rw [Row.id_of_find? h]
  exact AccessRule.isRuleId_idFor r q

end Tables

/-! ## Rules in sound tables -/

namespace Store

variable {s s' : Store} {q : Principal} {id : ResourceId} {n : Nat} {rule : AccessRule}
  {stored : Resource}

/-- A rule that is found is read of the row under its name. -/
theorem ruleAt?_ok_some (h : (s.ruleAt? q id).answer = .ok (some stored)) :
    ∃ row entry v, s.tables.row? (AccessRule.idFor id q) = some row ∧ row.read = .ok entry ∧
      entry.deleted = false ∧ stored = entry.toResource v := by
  obtain ⟨found, hget, h⟩ := Reading.bind_ok.mp h
  rcases get?_ok.mp hget with ⟨-, rfl⟩ | ⟨row, entry, hrow, hread, rfl⟩
  · cases h
  · dsimp only at h
    split at h
    · cases h
    · next hlive =>
      obtain ⟨v, -, h⟩ := Reading.bind_ok.mp h
      cases h
      exact ⟨row, entry, v, hrow, hread, by simpa using hlive, rfl⟩

/-- No rule is found where there is no row of it, or a deleted one. -/
theorem deleted_of_ruleAt? {row : Row} (h : (s.ruleAt? q id).answer = .ok none)
    (hrow : s.tables.row? (AccessRule.idFor id q) = some row) : row.deleted = true := by
  obtain ⟨found, hget, h⟩ := Reading.bind_ok.mp h
  rcases get?_ok.mp hget with ⟨hnone, -⟩ | ⟨row', entry, hrow', hread, rfl⟩
  · cases hrow.symm.trans hnone
  · obtain rfl := Option.some.inj (hrow.symm.trans hrow')
    dsimp only at h
    split at h
    · next hdead => exact (Row.deleted_of_read hread).symm.trans hdead
    · obtain ⟨v, -, h⟩ := Reading.bind_ok.mp h
      cases h

/-- A stored rule counts for the principal that it names, as the rule that was stored. -/
theorem counted?_of_stores {row : Row} {entry : Entry} {v : Nat} (hstores : row.Stores rule)
    (hread : row.read = .ok entry) :
    Authorization.counted? q (entry.toResource v) =
      if rule.principal = q then some { rule with id := row.id, resource := row.owner }
      else none := by
  obtain ⟨-, -, value, createdAt, hvalue, -, rfl⟩ := Row.read_ok_iff.mp hread
  obtain rfl := Option.some.inj (hstores.record?_eq.symm.trans hvalue)
  have hrule : AccessRule.ofResource ((row.entry rule.toResource.value createdAt).toResource v) =
      .ok { rule with id := row.id, resource := row.owner } :=
    AccessRule.ofResource_toResource rule hstores.classId rfl
  rw [Authorization.counted?, hrule]

/-- **A rule that counts is stored at the resource where it is found,** and is live. -/
theorem stores_of_counted? (hs : s.tables.Sound)
    (h : (s.ruleAt? q id).answer = .ok (some stored))
    (hrule : Authorization.counted? q stored = some rule) :
    ∃ row, s.tables.row? (AccessRule.idFor id q) = some row ∧ row.Stores rule ∧
      row.owner = id ∧ row.deleted = false ∧ rule.principal = q ∧ rule.id = row.id := by
  obtain ⟨row, entry, v, hrow, hread, hlive, rfl⟩ := ruleAt?_ok_some h
  obtain ⟨written, hstores⟩ := hs.stores hrow
  rw [counted?_of_stores hstores hread] at hrule
  split at hrule
  · next hq =>
    obtain rfl := Option.some.inj hrule
    have howner : AccessRule.idFor row.owner q = AccessRule.idFor id q := by
      rw [← Row.id_of_find? hrow, hstores.id, hq]
    exact ⟨row, hrow, ⟨hstores.classId, hstores.id, hstores.content, hstores.stamp⟩,
      AccessRule.resource_of_idFor_eq howner, (Row.deleted_of_read hread).symm.trans hlive, hq, rfl⟩
  · cases hrule

/-- **Whoever is ruled by a rule is ruled at a resource that is there.** -/
theorem has_of_governs (hs : s.tables.Sound) (h : s.Governs q n id (some rule)) :
    (s.tables.row? id).isSome := by
  cases h with
  | found below hfound counted =>
    obtain ⟨row, hrow, -, howner, -⟩ := stores_of_counted? hs hfound counted
    exact (howner ▸ hs.has_owner hrow : s.tables.Has id).resolve_left below
  | up _ _ found =>
    rw [found]
    rfl

/-- An owner is ruled by an owner rule. -/
theorem isOwner_iff : (∃ a, (s.authorize q id).answer = .ok a ∧ a.isOwner = true) ↔
    ∃ n rule, s.Governs q n id (some rule) ∧ rule.owner = true := by
  constructor
  · rintro ⟨a, ha, howner⟩
    obtain ⟨n, rule, hgov, rfl⟩ := authorize_ok_iff.mp ha
    cases rule with
    | none => cases howner
    | some rule => exact ⟨n, rule, hgov, howner⟩
  · rintro ⟨n, rule, hgov, howner⟩
    exact ⟨_, authorize_ok_iff.mpr ⟨n, some rule, hgov, rfl⟩, howner⟩

/-- Whoever owns a resource owns one that is there. -/
theorem isSome_of_requireOwner (hs : s.tables.Sound)
    (h : (s.requireOwner q id).answer = .ok ()) : (s.tables.row? id).isSome := by
  obtain ⟨n, rule, hgov, -⟩ := isOwner_iff.mp (requireOwner_ok.mp h)
  exact has_of_governs hs hgov

/-- **What is looked up as a rule rests on its row alone,** whatever a connection has learned. -/
theorem ruleAt?_congr (hs : s.tables.Sound)
    (hrow : s'.tables.row? (AccessRule.idFor id q) = s.tables.row? (AccessRule.idFor id q)) :
    (s'.ruleAt? q id).answer = (s.ruleAt? q id).answer := by
  have hget : s'.get? (AccessRule.idFor id q) = s.get? (AccessRule.idFor id q) := by
    unfold get?
    rw [hrow]
  unfold ruleAt?
  rw [Reading.answer_bind, Reading.answer_bind, hget]
  cases hfound : s.get? (AccessRule.idFor id q) with
  | error e => rfl
  | ok found =>
    rcases get?_ok.mp hfound with ⟨-, rfl⟩ | ⟨row, entry, hrow, hread, rfl⟩
    · rfl
    · obtain ⟨rule, hstores⟩ := hs.stores hrow
      obtain ⟨v, hv⟩ := hstores.stamp
      have hstamp : entry.stamp = .committed v := (Row.stamp_of_read hread).trans hv
      simp only [Reading.answer_ofExcept, Except.bind]
      split
      · rfl
      · simp only [resolveVersion, hstamp]

end Store

/-! ## Rows that are written -/

namespace Row

variable {row : Row} {rule : AccessRule} {r : Resource} {stamp : Stamp} {p : Principal} {now : Int}
  {id : ResourceId} {m : Marker} {v : Nat} {rows : List Row} {edit : Row → Row}

theorem Stores.mark (h : row.Stores rule) : (row.mark id v).Stores rule := by
  rw [Row.mark]
  split
  · exact ⟨h.classId, h.id, h.content, v, rfl⟩
  · exact h

/-- Rules are committed, so no commit touches one. -/
theorem Stores.restamp (h : row.Stores rule) : row.restamp m v = row := by
  obtain ⟨u, hu⟩ := h.stamp
  exact restamp_of_committed m v row hu

/-- An edit keeps a row sound if it stamps versions only and keeps the rule that the row stores. -/
theorem Sound.of_keeps (h : row.Sound) (hkeeps : Keeps edit)
    (hstamp : ∀ u, (edit row).stamp = .committed u → 0 < u)
    (hrule : ∀ rule, row.Stores rule → (edit row).Stores rule) : (edit row).Sound := by
  refine ⟨(hkeeps.replaced row).trans h.kept, ?_, hstamp, fun hname => ?_⟩
  · rw [hkeeps.content]
    exact h.written
  · rw [hkeeps.classId, hkeeps.id] at hname
    obtain ⟨rule, hstores⟩ := h.rule hname
    exact ⟨rule, hrule rule hstores⟩

theorem Sound.mark (h : row.Sound) (pos : 0 < v) : (row.mark id v).Sound := by
  refine h.of_keeps (keeps_mark id v) (fun u hu => ?_) fun rule hstores => hstores.mark
  rw [Row.mark] at hu
  split at hu
  · exact Stamp.pos_of_committed pos hu
  · exact h.stamped u hu

theorem Sound.restamp (h : row.Sound) (pos : 0 < v) : (row.restamp m v).Sound := by
  refine h.of_keeps (keeps_restamp m v) (fun u hu => ?_) fun rule hstores => ?_
  · rw [Row.restamp] at hu
    split at hu
    · exact Stamp.pos_of_committed pos hu
    · exact h.stamped u hu
  · rw [hstores.restamp]
    exact hstores

/-- The row of an ordinary resource is sound. -/
theorem sound_afterWrite (hr : r.IsOrdinary) (pos : ∀ v, stamp = .committed v → 0 < v) :
    (afterWrite r stamp p now (rows.find? (·.id = r.id))).Sound := by
  refine ⟨afterWrite_replaced _, ⟨r.value, afterWrite_content _⟩, fun v hv => ?_, fun hrule => ?_⟩
  · rw [afterWrite_stamp] at hv
    exact pos v hv
  · rw [afterWrite_classId, afterWrite_find?_id] at hrule
    exact absurd hrule (not_or.mpr ⟨hr.1, by simp [hr.2]⟩)

/-- The row of a rule stores it. -/
theorem stores_afterWrite (hid : rule.id = AccessRule.idFor rule.resource rule.principal)
    {v : Nat} : (afterWrite rule.toResource (.committed v) p now
      (rows.find? (·.id = rule.toResource.id))).Stores rule := by
  refine ⟨by rw [afterWrite_classId]; rfl, ?_, afterWrite_content _, v, afterWrite_stamp _⟩
  rw [afterWrite_find?_id, afterWrite_owner]
  exact hid

theorem sound_afterWrite_rule (hid : rule.id = AccessRule.idFor rule.resource rule.principal)
    {v : Nat} (pos : 0 < v) :
    (afterWrite rule.toResource (.committed v) p now
      (rows.find? (·.id = rule.toResource.id))).Sound := by
  have hstores : (afterWrite rule.toResource (.committed v) p now
      (rows.find? (·.id = rule.toResource.id))).Stores rule := stores_afterWrite hid
  refine ⟨afterWrite_replaced _, ⟨_, hstores.content⟩, fun u hu => ?_, fun _ => ⟨rule, hstores⟩⟩
  rw [afterWrite_stamp] at hu
  exact Stamp.pos_of_committed pos hu

/-- Whether a sound row can be read rests on its content and its time of creation. -/
theorem Sound.read_of_same {row' : Row} {entry : Entry} (h' : row'.Sound)
    (hcreated : row'.createdAt = row.createdAt) (hcontent : row'.content.record?.isSome)
    (hread : row.read = .ok entry) : ∃ entry', row'.read = .ok entry' := by
  obtain ⟨-, -, _, createdAt, -, hat, -⟩ := Row.read_ok_iff.mp hread
  obtain ⟨value, hrecord⟩ := Option.isSome_iff_exists.mp hcontent
  have hunaltered : row'.isAltered = false := by rw [Row.isAltered, h'.kept]
  rw [← hcreated] at hat
  refine ⟨row'.entry value createdAt, Row.read_ok_iff.mpr ⟨hunaltered, h'.stamped, ?_⟩⟩
  exact ⟨value, createdAt, hrecord, hat, rfl⟩

theorem Sound.unread (h : row.Sound) (hcontent : row.content.record? = none) :
    row.read = .error (.data .unreadable) :=
  read_of_unreadable (by rw [Row.isAltered, h.kept]) h.stamped hcontent

end Row

/-! ## Tables that are written -/

namespace Tables

variable {t t' : Tables} {r : Resource} {row : Row} {stamp : Stamp} {p : Principal} {now : Int}
  {id : ResourceId} {edit : Row → Row}

theorem Has.of_write (h : t.Has id) (hrows : t'.rows = Row.write r stamp p now t.rows) :
    t'.Has id := by
  refine h.imp_right fun hid => ?_
  rw [row?, hrows]
  exact Row.isSome_find?_write hid

theorem has_written (hrows : t'.rows = Row.write r stamp p now t.rows) : t'.Has r.id := by
  refine .inr ?_
  rw [row?_of_write hrows, if_pos rfl]
  rfl

/-- A row that could be read can be read again after a write, unless the value is nested too
deeply. -/
theorem Sound.read_of_write {entry : Entry} (ht' : t'.Sound)
    (hrows : t'.rows = Row.write r stamp p now t.rows) (found : t.row? r.id = some row)
    (read : row.read = .ok entry) (hshallow : r.value.Shallow) :
    ∃ entry', (Row.afterWrite r stamp p now (t.row? r.id)).read = .ok entry' := by
  have hrow := (row?_of_write hrows r.id).trans (if_pos rfl)
  have hcreated : (Row.afterWrite r stamp p now (t.row? r.id)).createdAt = row.createdAt := by
    rw [found]
    rfl
  refine (ht'.sound_row hrow).read_of_same hcreated ?_ read
  exact (Row.isSome_record?_afterWrite _).mpr hshallow

/-- What is nested too deeply is not read after a write. -/
theorem Sound.unread_of_write (ht' : t'.Sound)
    (hrows : t'.rows = Row.write r stamp p now t.rows) (hdeep : ¬r.value.Shallow) :
    (Row.afterWrite r stamp p now (t.row? r.id)).read = .error (.data .unreadable) := by
  have hrow := (row?_of_write hrows r.id).trans (if_pos rfl)
  refine (ht'.sound_row hrow).unread (Option.not_isSome_iff_eq_none.mp fun hsome => ?_)
  exact hdeep ((Row.isSome_record?_afterWrite _).mp hsome)

theorem Sound.of_write (ht : t.Sound) (hrows : t'.rows = Row.write r stamp p now t.rows)
    (hrow : (Row.afterWrite r stamp p now (t.row? r.id)).Sound) (howner : t'.Has r.owner) :
    t'.Sound where
  rows := by
    intro row hmem
    rw [hrows] at hmem
    rcases Row.mem_write hmem with hold | rfl
    · exact ht.rows row hold
    · exact hrow
  owners := by
    intro row hmem
    rw [hrows] at hmem
    rcases Row.mem_write hmem with hold | rfl
    · exact (ht.owners row hold).of_write hrows
    · rw [Row.afterWrite_owner]
      exact howner

/-- The owner of a resource that is admitted is there. -/
theorem Admits.has (h : t.Admits r) (ht : t.Sound) : t.Has r.owner := by
  cases h with
  | new _ climb => exact climb.start
  | kept found same => exact same ▸ ht.has_owner found
  | moved _ climb => exact climb.start

theorem Sound.of_edit (ht : t.Sound) (hrows : t'.rows = t.rows.map edit) (hedit : Row.Keeps edit)
    (hsound : ∀ row, row.Sound → (edit row).Sound) : t'.Sound where
  rows := by
    intro row hmem
    rw [hrows] at hmem
    obtain ⟨old, hold, rfl⟩ := List.mem_map.mp hmem
    exact hsound old (ht.rows old hold)
  owners := by
    intro row hmem
    rw [hrows] at hmem
    obtain ⟨old, hold, rfl⟩ := List.mem_map.mp hmem
    rw [hedit.owner]
    refine (ht.owners old hold).imp_right fun hsome => ?_
    rw [row?_of_edit hrows hedit, Option.isSome_map]
    exact hsome

/-- The same rows are the rows after an edit that does nothing. -/
theorem rows_eq_map_self (hrows : t'.rows = t.rows) : t'.rows = t.rows.map fun row => row := by
  rw [hrows, List.map_id']

theorem Sound.of_rows_eq (ht : t.Sound) (hrows : t'.rows = t.rows) : t'.Sound :=
  ht.of_edit (rows_eq_map_self hrows) Row.keeps_self fun _ h => h

end Tables

/-! ## Ordinary resources -/

/-- An ordinary resource does not have the name of a rule. -/
theorem Resource.IsOrdinary.idFor_ne {x : Resource} (h : x.IsOrdinary) (y : ResourceId)
    (q : Principal) : AccessRule.idFor y q ≠ x.id := by
  intro hid
  cases h.2.symm.trans (hid ▸ AccessRule.isRuleId_idFor y q)

/-- **A write of an ordinary resource writes no rule.** -/
theorem Store.ruleAt?_of_ordinary {s s' : Store} {r : Resource} {stamp : Stamp} {p : Principal}
    {now : Int} (hs : s.tables.Sound)
    (hrows : s'.tables.rows = Row.write r stamp p now s.tables.rows) (hord : r.IsOrdinary)
    (q : Principal) (y : ResourceId) : (s'.ruleAt? q y).answer = (s.ruleAt? q y).answer :=
  ruleAt?_congr hs ((Tables.row?_of_write hrows _).trans (if_neg (hord.idFor_ne y q)))

end Fieldbook
