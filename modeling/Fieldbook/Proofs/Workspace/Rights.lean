import Fieldbook.Proofs.Workspace.Reachable

/-!
# Proofs/Workspace/Rights — whose rights a rule changes

A rule for a principal at a resource is meant for that principal.  It is stored under a name, and
the name may be that of a rule for someone else at another resource.  A grant or a revocation leaves
the rights of all others as they are exactly when it leaves them so at the resources where the name
is that of a rule for them, and, where the row of the name gets another owner, at that row
(`rightsKept_iff`).  Everywhere else a walk towards the root finds what it found before, or comes to
one of these places (`Governs.transfer`).
-/

namespace Fieldbook

/-! ## One walk in two stores -/

namespace Store

/-- **A walk goes on in another store** up to the places where the two stand apart, if the rest of
the walk from there does. -/
theorem Governs.transfer {s s' : Store} {q : Principal} (there apart : ResourceId → Prop)
    (hapart : ∀ {id n rule}, there id → apart id → s.Governs q n id rule →
      ∃ n', s'.Governs q n' id rule)
    (hrule : ∀ {id}, ¬apart id → (s'.ruleAt? q id).answer = (s.ruleAt? q id).answer)
    (hup : ∀ {id row entry}, id ≠ .root → ¬apart id → there id → s.tables.row? id = some row →
      row.read = .ok entry → there row.owner ∧ ∃ row' entry', s'.tables.row? id = some row' ∧
        row'.read = .ok entry' ∧ row'.owner = row.owner)
    {n : Nat} {id : ResourceId} {rule : Option AccessRule} (h : s.Governs q n id rule) :
    there id → ∃ n', s'.Governs q n' id rule := by
  induction h with
  | root => exact fun _ => ⟨0, .root⟩
  | @found id _ _ below found counted =>
    intro hthere
    by_cases h : apart id
    · exact hapart hthere h (.found below found counted)
    · exact ⟨0, .found below ((hrule h).trans found) counted⟩
  | @up id row entry n rule below none found read further ih =>
    intro hthere
    by_cases h : apart id
    · exact hapart hthere h (.up below none found read further)
    · obtain ⟨hup, row', entry', found', read', howner⟩ := hup below h hthere found read
      obtain ⟨n', further'⟩ := ih hup
      exact ⟨n' + 1, .up below ((hrule h).trans none) found' read' (howner ▸ further')⟩

end Store

namespace Workspace

variable {w w' : Workspace} {q : Principal} {x : ResourceId}

/-- A principal is authorized on a resource as before, or is refused an answer as before. -/
def RightsKept (w w' : Workspace) (q : Principal) (x : ResourceId) : Prop :=
  (w'.store.authorize q x).answer.toOption = (w.store.authorize q x).answer.toOption

instance (w w' : Workspace) (q : Principal) (x : ResourceId) : Decidable (RightsKept w w' q x) :=
  inferInstanceAs (Decidable (_ = _))

/-- Rights are kept when the walks find the same. -/
theorem rightsKept_iff_governs : RightsKept w w' q x ↔
    ∀ rule, (∃ n, w.store.Governs q n x rule) ↔ ∃ n, w'.store.Governs q n x rule := by
  have hiff : ∀ (s : Store) rule, (∃ n, s.Governs q n x rule) ↔
      (s.authorize q x).answer.toOption = some ⟨q, x, rule⟩ := by
    intro s rule
    rw [toOption_eq_some, Store.authorize_ok_iff]
    constructor
    · rintro ⟨n, h⟩
      exact ⟨n, rule, h, rfl⟩
    · rintro ⟨n, _, h, heq⟩
      cases heq
      exact ⟨n, h⟩
  have hshape : ∀ (s : Store) a, (s.authorize q x).answer.toOption = some a →
      ∃ rule, a = ⟨q, x, rule⟩ := by
    intro s a h
    obtain ⟨n, rule, -, rfl⟩ := Store.authorize_ok_iff.mp (toOption_eq_some.mp h)
    exact ⟨rule, rfl⟩
  simp only [hiff]
  constructor
  · intro h rule
    rw [h]
  · intro h
    refine Option.ext fun a => ⟨fun ha => ?_, fun ha => ?_⟩
    · obtain ⟨rule, rfl⟩ := hshape _ a ha
      exact (h rule).mpr ha
    · obtain ⟨rule, rfl⟩ := hshape _ a ha
      exact (h rule).mp ha

end Workspace

/-! ## Tables that differ in one row -/

/-- The rows of two tables differ in the row of `k` alone, and there not in whether it can be
read. -/
structure Tables.ApartAt (t t' : Tables) (k : ResourceId) : Prop where
  sound : t.Sound
  sound' : t'.Sound
  same : ∀ id, id ≠ k → t'.row? id = t.row? id
  there : (t.row? k).isSome → (t'.row? k).isSome
  createdAt : ∀ row row', t.row? k = some row → t'.row? k = some row' →
    row'.createdAt = row.createdAt
  content : ∀ row row', t.row? k = some row → t'.row? k = some row' →
    row'.content.record?.isSome = row.content.record?.isSome

/-- The row of `k` has another owner in the other tables. -/
def Tables.Moves (t t' : Tables) (k : ResourceId) : Prop :=
  ∃ row row', t.row? k = some row ∧ t'.row? k = some row' ∧ row'.owner ≠ row.owner

namespace Tables.ApartAt

variable {t t' : Tables} {k y : ResourceId} {row row' : Row} {entry : Entry}

theorem exists_row? (h : t.ApartAt t' k) (hrow : t.row? y = some row) :
    ∃ row', t'.row? y = some row' := by
  by_cases hk : y = k
  · subst hk
    have hthere : (t.row? y).isSome := by
      rw [hrow]
      rfl
    exact Option.isSome_iff_exists.mp (h.there hthere)
  · exact ⟨row, (h.same y hk).trans hrow⟩

/-- Where no row is moved, owners are the same. -/
theorem owner_eq (h : t.ApartAt t' k) (hy : ¬(y = k ∧ t.Moves t' k)) (hrow : t.row? y = some row)
    (hrow' : t'.row? y = some row') : row'.owner = row.owner := by
  by_cases hk : y = k
  · subst hk
    refine Classical.byContradiction fun hne => ?_
    exact hy ⟨rfl, row, row', hrow, hrow', hne⟩
  · rw [h.same y hk] at hrow'
    obtain rfl := Option.some.inj (hrow.symm.trans hrow')
    rfl

/-- **A row can be read in both tables,** or in neither. -/
theorem exists_read_iff (h : t.ApartAt t' k) (hrow : t.row? y = some row)
    (hrow' : t'.row? y = some row') : (∃ e, row.read = .ok e) ↔ ∃ e, row'.read = .ok e := by
  by_cases hk : y = k
  · subst hk
    have hcreated := h.createdAt row row' hrow hrow'
    have hcontent := h.content row row' hrow hrow'
    refine ⟨fun ⟨e, hread⟩ => ?_, fun ⟨e, hread⟩ => ?_⟩
    · refine (h.sound'.sound_row hrow').read_of_same hcreated ?_ hread
      exact hcontent.trans (Row.isSome_record?_of_read hread)
    · refine (h.sound.sound_row hrow).read_of_same hcreated.symm ?_ hread
      exact hcontent.symm.trans (Row.isSome_record?_of_read hread)
  · rw [h.same y hk] at hrow'
    obtain rfl := Option.some.inj (hrow.symm.trans hrow')
    exact Iff.rfl

end Tables.ApartAt

namespace Workspace

variable {w w' : Workspace} {q : Principal} {k x : ResourceId}

/-- At the root nobody has a right, whatever the tables hold. -/
theorem rightsKept_root : RightsKept w w' q .root := by
  rw [RightsKept, Store.authorize_root, Store.authorize_root]

/-- **A change of one row keeps the rights of a principal** if it keeps them where the row has the
name of a rule for the principal, and, if it moves the row, at the row. -/
theorem rightsKept_of_apartAt (h : w.store.tables.ApartAt w'.store.tables k)
    (hname : ∀ y, (w.store.tables.row? y).isSome → AccessRule.idFor y q = k →
      RightsKept w w' q y)
    (hmoved : w.store.tables.Moves w'.store.tables k → RightsKept w w' q k)
    (hx : w.store.tables.Has x) : RightsKept w w' q x := by
  let apart : ResourceId → Prop := fun y =>
    AccessRule.idFor y q = k ∨ (y = k ∧ w.store.tables.Moves w'.store.tables k)
  have hkept : ∀ {y}, w.store.tables.Has y → apart y → RightsKept w w' q y := by
    rintro y (rfl | hy) (hk | ⟨rfl, hm⟩)
    · exact rightsKept_root
    · exact rightsKept_root
    · exact hname y hy hk
    · exact hmoved hm
  have hrule : ∀ {y}, ¬apart y →
      (w'.store.ruleAt? q y).answer = (w.store.ruleAt? q y).answer := by
    intro y hy
    have hne : AccessRule.idFor y q ≠ k := fun hk => hy (.inl hk)
    exact Store.ruleAt?_congr h.sound (h.same _ hne)
  -- the two walks are followed in either direction, as far as the two stores agree
  refine rightsKept_iff_governs.mpr fun rule => ⟨?_, ?_⟩
  · rintro ⟨n, hgov⟩
    refine hgov.transfer w.store.tables.Has apart ?_ hrule ?_ hx
    · intro y n rule hy ha hgov
      have hy' := rightsKept_iff_governs.mp (hkept hy ha) rule
      exact hy'.mp ⟨n, hgov⟩
    · intro y row entry _ hy _ hrow hread
      obtain ⟨row', hrow'⟩ := h.exists_row? hrow
      have hown := h.owner_eq (fun hm => hy (.inr hm)) hrow hrow'
      obtain ⟨entry', hread'⟩ := (h.exists_read_iff hrow hrow').mp ⟨entry, hread⟩
      exact ⟨h.sound.has_owner hrow, row', entry', hrow', hread', hown⟩
  · rintro ⟨n, hgov⟩
    refine hgov.transfer w.store.tables.Has apart ?_ (fun hy => (hrule hy).symm) ?_ hx
    · intro y n rule hy ha hgov
      have hy' := rightsKept_iff_governs.mp (hkept hy ha) rule
      exact hy'.mpr ⟨n, hgov⟩
    · intro y row' entry' below hy hthere hrow' hread'
      obtain ⟨row, hrow⟩ := Option.isSome_iff_exists.mp (hthere.resolve_left below)
      have hown := h.owner_eq (fun hm => hy (.inr hm)) hrow hrow'
      obtain ⟨entry, hread⟩ := (h.exists_read_iff hrow hrow').mpr ⟨entry', hread'⟩
      have hup := h.sound.has_owner hrow
      rw [← hown] at hup
      exact ⟨hup, row, entry, hrow, hread, hown.symm⟩

/-- **A change of a row that is no rule keeps the rights on what does not stand under it.** -/
theorem rightsKept_of_climb (h : w.store.tables.ApartAt w'.store.tables k)
    (hname : ∀ y, AccessRule.idFor y q ≠ k) {path : List ResourceId}
    (hclimb : w.store.tables.Climb x path) (hout : k ∉ path) : RightsKept w w' q x := by
  let outside : ResourceId → Prop := fun y => ∃ path, w.store.tables.Climb y path ∧ k ∉ path
  have hsame : ∀ {y}, y ≠ .root → outside y →
      w'.store.tables.row? y = w.store.tables.row? y ∧
        ∀ row, w.store.tables.row? y = some row → outside row.owner := by
    rintro y below ⟨path, hclimb, hout⟩
    cases hclimb with
    | root => exact absurd rfl below
    | step _ found up =>
      obtain ⟨hk, hout⟩ := not_or.mp fun hk => hout (List.mem_cons.mpr hk)
      refine ⟨h.same y fun heq => hk heq.symm, fun row hrow => ?_⟩
      obtain rfl := Option.some.inj (found.symm.trans hrow)
      exact ⟨_, up, hout⟩
  have hrule : ∀ y, (w'.store.ruleAt? q y).answer = (w.store.ruleAt? q y).answer :=
    fun y => Store.ruleAt?_congr h.sound (h.same _ (hname y))
  refine rightsKept_iff_governs.mpr fun rule => ⟨?_, ?_⟩
  · rintro ⟨n, hgov⟩
    refine hgov.transfer outside (fun _ => False) (fun _ hf => hf.elim) (fun _ => hrule _) ?_
      ⟨path, hclimb, hout⟩
    intro y row entry below _ hy hrow hread
    obtain ⟨heq, hup⟩ := hsame below hy
    exact ⟨hup row hrow, row, entry, heq.trans hrow, hread, rfl⟩
  · rintro ⟨n, hgov⟩
    refine hgov.transfer outside (fun _ => False) (fun _ hf => hf.elim) (fun _ => (hrule _).symm) ?_
      ⟨path, hclimb, hout⟩
    intro y row entry below _ hy hrow hread
    obtain ⟨heq, hup⟩ := hsame below hy
    exact ⟨hup row (heq ▸ hrow), row, entry, heq ▸ hrow, hread, rfl⟩

end Workspace

/-! ## Grants and revocations -/

/-- The resource and the principal that a call writes or deletes the rule for. -/
def Call.rule? : Call → Option (ResourceId × Principal)
  | .grant _ _ rule => some (rule.resource, rule.principal)
  | .revoke _ id grantee => some (id, grantee)
  | _ => none

theorem Call.rule?_eq_some {call : Call} {r : ResourceId} {g : Principal} :
    call.rule? = some (r, g) →
      (∃ p now rule, call = .grant p now rule ∧ rule.resource = r ∧ rule.principal = g) ∨
        ∃ p, call = .revoke p r g := by
  intro h
  cases call with
  | grant p now rule =>
    cases h
    exact .inl ⟨p, now, rule, rfl, rfl, rfl⟩
  | revoke p id grantee =>
    cases h
    exact .inr ⟨p, rfl⟩
  | _ => cases h

namespace Tables

variable {t t' : Tables} {rule : AccessRule} {p : Principal} {now : Int} {v : Nat}
  {k : ResourceId}

/-- Under the name there is no live rule, or one for `g`. -/
def LeavesRuleFor (t : Tables) (k : ResourceId) (g : Principal) : Prop :=
  ∀ row, t.row? k = some row → row.deleted = true ∨ ∃ rule, row.Stores rule ∧ rule.principal = g

/-- A grant leaves a live rule for the principal that it names. -/
theorem stores_of_grant
    (hrows : t'.rows = Row.write (Workspace.granted rule) (.committed v) p now t.rows) :
    ∃ row rule', t'.row? (AccessRule.idFor rule.resource rule.principal) = some row ∧
      row.deleted = false ∧ row.Stores rule' ∧ rule'.principal = rule.principal := by
  refine ⟨_, { rule with id := AccessRule.idFor rule.resource rule.principal },
    (row?_of_write hrows _).trans (if_pos rfl), Row.afterWrite_deleted _, ?_, rfl⟩
  exact Row.stores_afterWrite rfl

theorem apartAt_of_grant (ht : t.Sound) (ht' : t'.Sound)
    (hrows : t'.rows = Row.write (Workspace.granted rule) (.committed v) p now t.rows) :
    t.ApartAt t' (AccessRule.idFor rule.resource rule.principal) := by
  have hid : AccessRule.idFor rule.resource rule.principal = (Workspace.granted rule).id := rfl
  have hrow? := row?_of_write hrows
  rw [hid]
  refine ⟨ht, ht', fun id hne => ?_, fun _ => ?_, fun row row' hrow hrow' => ?_,
    fun row row' hrow hrow' => ?_⟩
  · rw [hrow?, if_neg hne]
  · rw [hrow?, if_pos rfl]
    rfl
  · rw [hrow?, if_pos rfl, hrow] at hrow'
    obtain rfl := Option.some.inj hrow'
    rfl
  · -- the row that was there stores a rule as well
    obtain ⟨old, hold⟩ := ht.stores hrow
    obtain ⟨_, _, hgranted, -, hnew, -⟩ := stores_of_grant hrows
    obtain rfl := Option.some.inj (hrow'.symm.trans hgranted)
    rw [hold.record?_eq, hnew.record?_eq]
    rfl

theorem apartAt_of_mark (ht : t.Sound) (ht' : t'.Sound)
    (hrows : t'.rows = t.rows.map (Row.mark k v)) : t.ApartAt t' k := by
  have hrow? := row?_of_edit hrows (Row.keeps_mark k v)
  refine ⟨ht, ht', fun id hne => ?_, fun h => by rw [hrow?, Option.isSome_map]; exact h, ?_, ?_⟩
  · rw [hrow?]
    cases hrow : t.row? id with
    | none => rfl
    | some row =>
      have hne' : row.id ≠ k := Row.id_of_find? hrow ▸ hne
      rw [Option.map_some, Row.mark_of_ne k v row hne']
  · intro row row' hrow hrow'
    rw [hrow?, hrow] at hrow'
    obtain rfl := Option.some.inj hrow'
    exact (Row.keeps_mark k v).createdAt row
  · intro row row' hrow hrow'
    rw [hrow?, hrow] at hrow'
    obtain rfl := Option.some.inj hrow'
    rw [(Row.keeps_mark k v).content]

/-- A deletion leaves no live row under the name. -/
theorem deleted_of_mark (hrows : t'.rows = t.rows.map (Row.mark k v)) {row : Row}
    (hrow : t'.row? k = some row) : row.deleted = true := by
  rw [row?_of_edit hrows (Row.keeps_mark k v)] at hrow
  obtain ⟨old, hold, rfl⟩ := Option.map_eq_some_iff.mp hrow
  rw [Row.mark_self k v old (Row.id_of_find? hold)]

end Tables

namespace Workspace

variable {w : Workspace} {call : Call} {r : ResourceId} {g q : Principal} {y : ResourceId}

/-- What a grant or a revocation that is done has done to the rows. -/
theorem rows_of_rule (hw : w.Reachable) (hcall : call.rule? = some (r, g))
    (hok : (w.perform call).1.isOk = true) :
    (∃ p now rule v, call = .grant p now rule ∧ rule.resource = r ∧ rule.principal = g ∧
      (w.perform call).2.store.tables.rows =
        Row.write (granted rule) (.committed (v : Nat)) p now w.store.tables.rows) ∨
    ∃ p v, call = .revoke p r g ∧ (w.perform call).2.store.tables.rows =
      w.store.tables.rows.map (Row.mark (AccessRule.idFor r g) v) := by
  have hchange := change_of_perform (accounted_of_reachable hw) call
  generalize (w.perform call).2.store.tables.rows = rows at hchange
  generalize (w.perform call).1 = outcome at hchange hok
  rcases Call.rule?_eq_some hcall with ⟨p, now, rule, rfl, rfl, rfl⟩ | ⟨p, rfl⟩
  · cases hchange with
    | refused => cases hok
    | read asked | write asked => cases asked
    | grant => exact .inl ⟨p, now, rule, _, rfl, rfl, rfl, rfl⟩
  · cases hchange with
    | refused => cases hok
    | read asked | write asked => cases asked
    | revoke => exact .inr ⟨p, _, rfl, rfl⟩

/-- **A grant or a revocation changes one row,** that of the rule it is about. -/
theorem apartAt_of_rule (hw : w.Reachable) (hcall : call.rule? = some (r, g))
    (hok : (w.perform call).1.isOk = true) :
    w.store.tables.ApartAt (w.perform call).2.store.tables (AccessRule.idFor r g) ∧
      (w.perform call).2.store.tables.LeavesRuleFor (AccessRule.idFor r g) g := by
  have hs := sound_of_reachable hw
  rcases rows_of_rule hw hcall hok with ⟨p, now, rule, v, rfl, rfl, rfl, hrows⟩ | ⟨p, v, rfl, hrows⟩
  · have hs' : (w.perform (.grant p now rule)).2.store.tables.Sound :=
      sound_of_reachable (.call hw trivial)
    refine ⟨Tables.apartAt_of_grant hs hs' hrows, fun row hrow => ?_⟩
    obtain ⟨row', rule', hrow', -, hstores, hprincipal⟩ := Tables.stores_of_grant hrows
    obtain rfl := Option.some.inj (hrow.symm.trans hrow')
    exact .inr ⟨rule', hstores, hprincipal⟩
  · have hs' : (w.perform (.revoke p r g)).2.store.tables.Sound :=
      sound_of_reachable (.call hw trivial)
    exact ⟨Tables.apartAt_of_mark hs hs' hrows, fun row hrow =>
      .inl (Tables.deleted_of_mark hrows hrow)⟩

/-- Whoever shares the name is not ruled by the rule of the name afterwards. -/
theorem id_ne_of_governs {s : Store} {k : ResourceId} (hs : s.tables.Sound)
    (hleaves : s.tables.LeavesRuleFor k g) (hq : q ≠ g) {n : Nat} {rule : AccessRule}
    (h : s.Governs q n y (some rule)) : rule.id ≠ k := by
  generalize hr : some rule = found at h
  induction h with
  | root => cases hr
  | found below hfound counted =>
    rw [← hr] at counted
    obtain ⟨row, hrow, hstores, -, hlive, hprincipal, hid⟩ :=
      Store.stores_of_counted? hs hfound counted
    rw [hid, Row.id_of_find? hrow]
    rintro rfl
    rcases hleaves row hrow with hdead | ⟨rule', hstores', rfl⟩
    · cases hlive.symm.trans hdead
    · have heq := AccessRule.principal_of_idFor_eq (hstores.id.symm.trans hstores'.id)
      exact hq (hprincipal.symm.trans heq)
  | up _ _ _ _ _ ih => exact ih hr

/-- Where the name is that of a live rule for someone else, no rule is found at all. -/
theorem eq_none_of_governs {s : Store} {row : Row} {rule' : AccessRule} (hs : s.tables.Sound)
    (hrow : s.tables.row? (AccessRule.idFor y q) = some row) (hlive : row.deleted = false)
    (hstores : row.Stores rule') (hq : q ≠ rule'.principal) {n : Nat} {rule : Option AccessRule}
    (h : s.Governs q n y rule) : rule = none := by
  cases h with
  | root => rfl
  | found below hfound counted =>
    refine Option.eq_none_iff_forall_ne_some.mpr fun rule hsome => ?_
    obtain ⟨row', hrow', hstores', -, -, hprincipal, -⟩ :=
      Store.stores_of_counted? hs hfound (counted.trans hsome)
    obtain rfl := Option.some.inj (hrow.symm.trans hrow')
    have heq := AccessRule.principal_of_idFor_eq (hstores'.id.symm.trans hstores.id)
    exact hq (hprincipal.symm.trans heq)
  | up _ none => cases hlive.symm.trans (Store.deleted_of_ruleAt? none hrow)

/-- Where the name is that of deleted rules only, the owner decides. -/
theorem governs_owner {s : Store} {row : Row} (below : y ≠ .root)
    (hdead : ∀ rule, s.tables.row? (AccessRule.idFor y q) = some rule → rule.deleted = true)
    (hrow : s.tables.row? y = some row) {n : Nat} {rule : Option AccessRule}
    (h : s.Governs q n y rule) : ∃ m, s.Governs q m row.owner rule := by
  cases h with
  | root => exact absurd rfl below
  | found _ hfound =>
    obtain ⟨stored, entry, v, hstored, hread, hlive, -⟩ := Store.ruleAt?_ok_some hfound
    rw [Row.deleted_of_read hread, hdead stored hstored] at hlive
    cases hlive
  | up _ _ hfound _ further =>
    obtain rfl := Option.some.inj (hrow.symm.trans hfound)
    exact ⟨_, further⟩

/-- After a grant, where the name of its rule is that of a rule for someone else, there is no rule
for them. -/
theorem rule_eq_none_of_grant {p : Principal} {now : Int} {rule : AccessRule} (hw : w.Reachable)
    (hcall : (Call.grant p now rule).rule? = some (r, g))
    (hok : (w.perform (.grant p now rule)).1.isOk = true) (hq : q ≠ g)
    (hshared : AccessRule.idFor y q = AccessRule.idFor r g) {a : Authorization}
    (ha : ((w.perform (.grant p now rule)).2.store.authorize q y).answer = .ok a) :
    a = ⟨q, y, none⟩ := by
  obtain ⟨hapart, -⟩ := apartAt_of_rule hw hcall hok
  obtain ⟨n, found, hgov, rfl⟩ := Store.authorize_ok_iff.mp ha
  rcases rows_of_rule hw hcall hok with ⟨_, _, _, v, heq, rfl, rfl, hrows⟩ | ⟨_, _, heq, -⟩
  · cases heq
    obtain ⟨row, rule', hrow, hlive, hstores, hprincipal⟩ := Tables.stores_of_grant hrows
    rw [← hshared] at hrow
    rw [← hprincipal] at hq
    rw [eq_none_of_governs hapart.sound' hrow hlive hstores hq hgov]
  · cases heq

/-- After a revocation, where the name of its rule is that of a rule for someone, the owner
decides. -/
theorem rule_of_revoke {p : Principal} {row : Row} (hw : w.Reachable)
    (hok : (w.perform (.revoke p r g)).1.isOk = true) (below : y ≠ .root)
    (hrow : w.store.tables.row? y = some row)
    (hshared : AccessRule.idFor y q = AccessRule.idFor r g) {a : Authorization}
    (ha : ((w.perform (.revoke p r g)).2.store.authorize q y).answer = .ok a) :
    ((w.perform (.revoke p r g)).2.store.authorize q row.owner).answer =
      .ok ⟨q, row.owner, a.rule⟩ := by
  obtain ⟨n, found, hgov, rfl⟩ := Store.authorize_ok_iff.mp ha
  rcases rows_of_rule hw rfl hok with ⟨_, _, _, _, heq, -⟩ | ⟨_, v, heq, hrows⟩
  · cases heq
  · have hmarked := (Tables.row?_of_edit hrows (Row.keeps_mark _ _) y).trans
      (congrArg (Option.map _) hrow)
    have hdead : ∀ stored, (w.perform (.revoke p r g)).2.store.tables.row?
        (AccessRule.idFor y q) = some stored → stored.deleted = true := by
      intro stored hstored
      rw [hshared] at hstored
      exact Tables.deleted_of_mark hrows hstored
    obtain ⟨m, hup⟩ := governs_owner below hdead hmarked hgov
    rw [(Row.keeps_mark _ _).owner] at hup
    exact Store.authorize_ok_iff.mpr ⟨m, found, hup, rfl⟩

/-- **Whose rights a rule changes.**  A grant or a revocation of the rule for `g` at `r` keeps the
rights of all others, at every resource that was there, exactly when it keeps them at the resources
where the name of the rule is that of a rule for them, and at the row of the name itself if that
gets another owner.

At a resource of the first kind, someone who was ruled by the rule of the name is so no more.  After
a grant nobody else is ruled by any rule there, so that the rights kept are those of who had none;
after a revocation the rights there are those at the owner. -/
theorem rightsKept_iff (hw : w.Reachable) (hcall : call.rule? = some (r, g))
    (hok : (w.perform call).1.isOk = true) :
    ((∀ q, q ≠ g → ∀ x, (w.store.tables.row? x).isSome → RightsKept w (w.perform call).2 q x) ↔
      (∀ q, q ≠ g → ∀ y, (w.store.tables.row? y).isSome →
        AccessRule.idFor y q = AccessRule.idFor r g → RightsKept w (w.perform call).2 q y) ∧
      (w.store.tables.Moves (w.perform call).2.store.tables (AccessRule.idFor r g) →
        ∀ q, q ≠ g → RightsKept w (w.perform call).2 q (AccessRule.idFor r g))) ∧
    (∀ q, q ≠ g → ∀ y rule, (w.store.authorize q y).answer = .ok ⟨q, y, some rule⟩ →
      rule.id = AccessRule.idFor r g → ¬RightsKept w (w.perform call).2 q y) ∧
    (∀ p now rule, call = .grant p now rule → ∀ q, q ≠ g → ∀ y,
      AccessRule.idFor y q = AccessRule.idFor r g → ∀ a,
        ((w.perform call).2.store.authorize q y).answer = .ok a → a.rule = none ∧
          (RightsKept w (w.perform call).2 q y ↔
            (w.store.authorize q y).answer = .ok ⟨q, y, none⟩)) ∧
    ∀ p, call = .revoke p r g → ∀ q y row, y ≠ .root → w.store.tables.row? y = some row →
      AccessRule.idFor y q = AccessRule.idFor r g → ∀ a,
        ((w.perform call).2.store.authorize q y).answer = .ok a →
          ((w.perform call).2.store.authorize q row.owner).answer = .ok ⟨q, row.owner, a.rule⟩ := by
  obtain ⟨hapart, hleaves⟩ := apartAt_of_rule hw hcall hok
  refine ⟨⟨fun h => ⟨fun q hq y hy _ => h q hq y hy, ?_⟩, ?_⟩, ?_, ?_, ?_⟩
  · rintro ⟨row, -, hrow, -⟩ q hq
    have hthere : (w.store.tables.row? (AccessRule.idFor r g)).isSome := by
      rw [hrow]
      rfl
    exact h q hq _ hthere
  · rintro ⟨hname, hmoved⟩ q hq x hx
    exact rightsKept_of_apartAt hapart (hname q hq) (fun hm => hmoved hm q hq) (.inr hx)
  · intro q hq y rule hbefore hid hkept
    obtain ⟨n, _, hgov, heq⟩ := Store.authorize_ok_iff.mp hbefore
    obtain rfl := (Authorization.mk.inj heq).2.2
    have hsame := rightsKept_iff_governs.mp hkept (some rule)
    obtain ⟨m, hafter⟩ := hsame.mp ⟨n, hgov⟩
    exact id_ne_of_governs hapart.sound' hleaves hq hafter hid
  · rintro p now rule rfl q hq y hshared a ha
    obtain rfl := rule_eq_none_of_grant hw hcall hok hq hshared ha
    refine ⟨rfl, ?_⟩
    rw [RightsKept, ha, ← toOption_eq_some]
    exact eq_comm
  · rintro p rfl q y row below hrow hshared a ha
    exact rule_of_revoke hw hok below hrow hshared ha

/-! ## A name that two rules share -/

/-- A folder with resources `a` and `a-b`, the second of which is given to `c`. -/
def sharedName : Workspace :=
  let home : ResourceId := ⟨"c0198c3f2a7b07d1e9f5b4c6d8e0f1a2b"⟩
  (empty 16).run
    [.createRootFolder ⟨"alice"⟩ 0 home "Home",
      .put ⟨"alice"⟩ 0 (.new ⟨"a"⟩ home folderClass .empty),
      .put ⟨"alice"⟩ 0 (.new ⟨"a-b"⟩ home folderClass .empty),
      .grant ⟨"alice"⟩ 0 (.ownerRule ⟨"a-b"⟩ ⟨"c"⟩)]

/-- The grant of `a` to `b-c`, whose rule has the name of the rule for `c` at `a-b`. -/
def sharingGrant : Call := .grant ⟨"alice"⟩ 0 ⟨⟨""⟩, ⟨"a"⟩, ⟨"b-c"⟩, false, some "true", none⟩

theorem reachable_sharedName : sharedName.Reachable :=
  ReachableBy.run _ (.empty 16) (by decide +kernel)

/-- The owner of `a-b` is one no more when `a` is shown to someone else. -/
theorem not_rightsKept_sharingGrant :
    sharedName.Reachable ∧ sharingGrant.rule? = some (⟨"a"⟩, ⟨"b-c"⟩) ∧
      (sharedName.perform sharingGrant).1.isOk = true ∧
      ¬RightsKept sharedName (sharedName.perform sharingGrant).2 ⟨"c"⟩ ⟨"a-b"⟩ := by
  have hok : (sharedName.perform sharingGrant).1.isOk = true := by decide +kernel
  have hruled : (sharedName.store.authorize ⟨"c"⟩ ⟨"a-b"⟩).answer =
      .ok ⟨⟨"c"⟩, ⟨"a-b"⟩, some (.ownerRule ⟨"a-b"⟩ ⟨"c"⟩)⟩ :=
    toOption_eq_some.mp (by decide +kernel)
  obtain ⟨-, hloses, -⟩ := rightsKept_iff reachable_sharedName rfl hok
  exact ⟨reachable_sharedName, rfl, hok, hloses ⟨"c"⟩ (by decide) ⟨"a-b"⟩ _ hruled rfl⟩

/-- So a grant may take the rights of a principal whom it does not name. -/
theorem exists_not_rightsKept :
    ¬∀ (w : Workspace) (call : Call) (r : ResourceId) (g : Principal), w.Reachable →
      call.rule? = some (r, g) → (w.perform call).1.isOk = true →
        ∀ q, q ≠ g → ∀ x, (w.store.tables.row? x).isSome →
          RightsKept w (w.perform call).2 q x := by
  intro h
  have hkept := h sharedName sharingGrant ⟨"a"⟩ ⟨"b-c"⟩ reachable_sharedName rfl
    (by decide +kernel) ⟨"c"⟩ (by decide) ⟨"a-b"⟩ (by decide +kernel)
  exact absurd hkept (by decide +kernel)

end Workspace

end Fieldbook
