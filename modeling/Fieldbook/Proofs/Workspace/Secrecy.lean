import Fieldbook.Proofs.Ownership.Breaks
import Fieldbook.Proofs.Workspace.Listings
import Fieldbook.Proofs.Workspace.LiveRules
import Fieldbook.Proofs.Workspace.Walks

/-!
# Proofs/Workspace/Secrecy — who reads the rules at a resource

Rules are listed for owners only, and they are no children.  But a rule is stored as a resource, under
a name that can be worked out, and of a resource that is asked for by its name only the right to view
it is demanded.  So whoever does not own a resource reads a live rule there by `get` and by nothing
else, and does so exactly when the rule is not deleted with its resource and the principal may view it
(`tells_rule_iff`).  Unless a rule for that principal stands at the rule itself, that is decided by
the rule that governs the resource.
-/

namespace Fieldbook

/-- Who asks for resources, children or rules. -/
def Call.reader? : Call → Option Principal
  | .get principal _ | .children principal _ | .rules principal _ => some principal
  | _ => none

/-- An answer that tells of a row: the resource of its name, or a child or a rule of that name. -/
def Answer.Tells (row : Row) : Answer → Prop
  | .resource r => r.id = row.id
  | .children cs => ∃ c ∈ cs, c.id = row.id
  | .rules rs => ∃ rule ∈ rs, rule.id = row.id
  | _ => False

/-! ## Listings -/

namespace Workspace

variable {w : Workspace} {p : Principal} {id r : ResourceId} {row : Row} {e : Entry} {call : Call}

/-- A rule that is told has the name of its row. -/
theorem id_of_rule? {rule : AccessRule} (h : (w.rule? e).answer = .ok (some rule)) :
    rule.id = e.id := by
  rw [rule?] at h
  split at h
  · cases h
  · obtain ⟨v, -, h⟩ := Reading.bind_ok.mp h
    obtain ⟨rule', hrule, h⟩ := Reading.bind_ok.mp h
    obtain rfl := Option.some.inj (Except.ok.inj h)
    have hof : AccessRule.ofResource (e.toResource v) = .ok rule' := Reading.mapError_ok.mp hrule
    rw [AccessRule.ofResource] at hof
    split at hof
    · cases hof
    · split at hof
      · cases hof
        rfl
      · cases hof

/-- Rules are no children. -/
theorem classId_of_child? {c : Child} (h : (w.child? p e).answer = .ok (some c)) :
    e.classId ≠ AccessRule.classId := by
  rw [child?] at h
  split at h
  · cases h
  · next hleft => exact fun hclass => hleft (.inr hclass)

/-- **Rules are listed of the rows of their resource,** for its owners. -/
theorem rules_ok {rs : List AccessRule} : (w.rules p id).answer = .ok rs ↔
    w.store.Owns p id ∧
      (∀ row ∈ w.store.tables.rows.filter (·.owner = id), ∃ e rule?, row.read = .ok e ∧
        (w.rule? e).answer = .ok rule?) ∧
      rs = (w.store.tables.rows.filter (·.owner = id)).filterMap (Row.shown w.rule?) := by
  rw [← listing_ok, rules, Reading.bind_ok, Store.owns_iff_authorize, ← Store.requireOwner_ok]
  exact ⟨fun ⟨_, howner, h⟩ => ⟨howner, h⟩, fun ⟨howner, h⟩ => ⟨(), howner, h⟩⟩

/-! ## Reading a rule -/

section Rule

variable (hdistinct : (w.store.tables.rows.map (·.id)).Nodup)
  (hrow : row ∈ w.store.tables.liveRules r)
include hdistinct hrow

/-- Who is told of a rule in a list of rules owns its resource. -/
theorem owns_of_tells_rules {rs : List AccessRule} (h : (w.rules p id).answer = .ok rs)
    (htells : ∃ rule ∈ rs, rule.id = row.id) : w.store.Owns p r := by
  obtain ⟨hmem, rfl, -⟩ := Tables.mem_liveRules.mp hrow
  obtain ⟨howns, htold, rfl⟩ := rules_ok.mp h
  obtain ⟨rule, hrule, hid⟩ := htells
  obtain ⟨row', hrow', hshown⟩ := List.mem_filterMap.mp hrule
  obtain ⟨e, rule?, hread, hrule?⟩ := htold row' hrow'
  rw [Row.shown_eq hread hrule?] at hshown
  subst hshown
  obtain ⟨hmem', howner⟩ := List.mem_filter.mp hrow'
  have hname : row'.id = row.id := by
    rw [← Row.id_of_read hread, ← id_of_rule? hrule?, hid]
  obtain rfl := Row.eq_of_id_eq hdistinct hmem' hmem hname
  exact of_decide_eq_true howner ▸ howns

/-- Nobody is told of a rule in a list of children. -/
theorem not_tells_children {cs : List Child} (h : (w.children p id).answer = .ok cs) :
    ¬∃ c ∈ cs, c.id = row.id := by
  rintro ⟨c, hc, hid⟩
  obtain ⟨hmem, -, hclass, -⟩ := Tables.mem_liveRules.mp hrow
  obtain ⟨-, htold, rfl⟩ := children_ok.mp h
  obtain ⟨row', hrow', hshown⟩ := List.mem_filterMap.mp hc
  obtain ⟨e, c?, hread, hc?⟩ := htold row' hrow'
  rw [Row.shown_eq hread hc?] at hshown
  subst hshown
  have hname : row'.id = row.id := by
    rw [← Row.id_of_read hread, ← id_of_child? hc?, hid]
  obtain rfl := Row.eq_of_id_eq hdistinct (List.mem_filter.mp hrow').1 hmem hname
  exact classId_of_child? hc? ((Row.classId_of_read hread).trans hclass)

/-- By its name a rule is read by who may view it. -/
theorem get_rule_ok_iff (hs : w.store.tables.Sound) :
    (∃ x, (w.get p row.id).answer = .ok x) ↔ w.store.isDeleted row.id = .ok false ∧
      ∃ a, (w.store.authorize p row.id).answer = .ok a ∧ a.canView = true := by
  obtain ⟨hmem, -, hclass, -⟩ := Tables.mem_liveRules.mp hrow
  have hfound : w.store.tables.row? row.id = some row := Row.find?_of_mem hdistinct hmem
  constructor
  · rintro ⟨x, hx⟩
    obtain ⟨row', e, v, hfound', hgets, -⟩ := get_ok_iff.mp hx
    obtain rfl := Option.some.inj (hfound.symm.trans hfound')
    exact ⟨hgets.live, hgets.viewed⟩
  · rintro ⟨hlive, a, ha, hview⟩
    have below := Store.ne_root_of_canView ha hview
    obtain ⟨row', e, found, read⟩ := Store.exists_read_of_isDeleted hlive below
    obtain rfl := Option.some.inj (hfound.symm.trans found)
    obtain ⟨rule, hstores⟩ := (hs.sound_row hfound).rule (.inl hclass)
    obtain ⟨v, hstamp⟩ := hstores.stamp
    have hversion : (w.store.committedVersion? e).answer = .ok (some v.toNat) := by
      rw [Store.committedVersion?, Row.stamp_of_read read, hstamp]
      rfl
    exact ⟨_, get_ok_iff.mpr ⟨row, e, _, hfound, ⟨read, hversion, hlive, a, ha, hview⟩, rfl⟩⟩

/-- **What is read is the rule.** -/
theorem value_of_get_rule (hs : w.store.tables.Sound) {x : Resource}
    (h : (w.get p row.id).answer = .ok x) :
    ∃ rule, row.Stores rule ∧ x.value = rule.toResource.value := by
  obtain ⟨hmem, -, hclass, -⟩ := Tables.mem_liveRules.mp hrow
  obtain ⟨row', e, v, hfound', hgets, rfl⟩ := get_ok_iff.mp h
  obtain rfl := Option.some.inj ((Row.find?_of_mem hdistinct hmem).symm.trans hfound')
  obtain ⟨rule, hstores⟩ := (hs.rows row hmem).rule (.inl hclass)
  obtain ⟨-, -, value, createdAt, hvalue, -, rfl⟩ := Row.read_ok_iff.mp hgets.read
  exact ⟨rule, hstores, Option.some.inj (hvalue.symm.trans hstores.record?_eq)⟩

/-- Where no rule for the principal stands at a rule, the resource of the rule decides. -/
theorem rule_of_authorize (hs : w.store.tables.Sound) (hunruled : w.store.Unruled p row.id)
    {a : Authorization} (ha : (w.store.authorize p row.id).answer = .ok a) :
    ∃ b, (w.store.authorize p r).answer = .ok b ∧ a.rule = b.rule := by
  obtain ⟨hmem, rfl, -⟩ := Tables.mem_liveRules.mp hrow
  obtain ⟨n, rule, hgov, rfl⟩ := Store.authorize_ok_iff.mp ha
  have below := AccessRule.ne_root_of_isRuleId (hs.isRuleId_of_mem_liveRules hrow)
  obtain ⟨m, further⟩ := hgov.of_owner below hunruled (Row.find?_of_mem hdistinct hmem)
  exact ⟨_, Store.authorize_ok_iff.mpr ⟨m, rule, further, rfl⟩, rfl⟩

end Rule

theorem perform_get_ok {a : Answer} : (w.perform (.get p id)).1 = .ok a ↔
    ∃ x, (w.get p id).answer = .ok x ∧ a = .resource x := by
  change (w.get p id).answer.map Answer.resource = .ok a ↔ _
  cases (w.get p id).answer <;> simp [Except.map, eq_comm]

/-- **Whoever does not own a resource is told of a live rule there** by asking for it by its name,
and by no other call. -/
theorem tells_rule_iff (hw : w.Reachable) (hp : ¬w.store.Owns p r)
    (hrow : row ∈ w.store.tables.liveRules r) (hcall : call.reader? = some p) :
    (∃ a, (w.perform call).1 = .ok a ∧ a.Tells row) ↔
      call = .get p row.id ∧ ∃ x, (w.get p row.id).answer = .ok x := by
  have hdistinct := (accounted_of_reachable hw).tables.distinct
  constructor
  · rintro ⟨a, ha, htells⟩
    cases call with
    | get q id =>
      obtain rfl := Option.some.inj hcall
      obtain ⟨x, hx, rfl⟩ := perform_get_ok.mp ha
      obtain rfl := (id_of_get (toOption_eq_some.mpr hx)).symm.trans htells
      exact ⟨rfl, x, hx⟩
    | children q id =>
      change (w.children q id).answer.map Answer.children = .ok a at ha
      cases hcs : (w.children q id).answer with
      | error e =>
        rw [hcs] at ha
        cases ha
      | ok cs =>
        rw [hcs] at ha
        cases ha
        exact absurd htells (not_tells_children hdistinct hrow hcs)
    | rules q id =>
      obtain rfl := Option.some.inj hcall
      change (w.rules q id).answer.map Answer.rules = .ok a at ha
      cases hrs : (w.rules q id).answer with
      | error e =>
        rw [hrs] at ha
        cases ha
      | ok rs =>
        rw [hrs] at ha
        cases ha
        exact absurd (owns_of_tells_rules hdistinct hrow hrs htells) hp
    | _ => cases hcall
  · rintro ⟨rfl, x, hx⟩
    exact ⟨_, perform_get_ok.mpr ⟨x, hx, rfl⟩, id_of_get (toOption_eq_some.mpr hx)⟩

/-- **Who reads the live rules at a resource.**  Whoever does not own the resource reads a live rule
there by its name alone, and does so exactly when the rule is not deleted, with the resource or from
further up, and the reader may view it; what is read is all of the rule.  Unless a rule for the reader
stands at the rule itself, the reader may do with it what the rule that governs the resource says.  So
a live rule is read by owners only just if nobody else may view it, or it is deleted from further
up. -/
theorem reads_rule_iff (hw : w.Reachable) (hp : ¬w.store.Owns p r)
    (hrow : row ∈ w.store.tables.liveRules r) :
    (∀ call : Call, call.reader? = some p →
      ((∃ a, (w.perform call).1 = .ok a ∧ a.Tells row) ↔
        call = .get p row.id ∧ w.store.isDeleted row.id = .ok false ∧
          ∃ a, (w.store.authorize p row.id).answer = .ok a ∧ a.canView = true)) ∧
    (∀ a, (w.perform (.get p row.id)).1 = .ok a → ∃ x rule, a = .resource x ∧ row.Stores rule ∧
      x.value = rule.toResource.value) ∧
    (w.store.Unruled p row.id → ∀ a, (w.store.authorize p row.id).answer = .ok a →
      ∃ b, (w.store.authorize p r).answer = .ok b ∧ a.rule = b.rule) ∧
    ((∀ call : Call, call.reader? = some p → ∀ a, (w.perform call).1 = .ok a → ¬a.Tells row) ↔
      (w.store.isDeleted row.id = .ok false →
        ∀ a, (w.store.authorize p row.id).answer = .ok a → a.canView = false)) := by
  have hs := sound_of_reachable hw
  have hdistinct := (accounted_of_reachable hw).tables.distinct
  have hget := get_rule_ok_iff (p := p) hdistinct hrow hs
  have htells : ∀ call : Call, call.reader? = some p →
      ((∃ a, (w.perform call).1 = .ok a ∧ a.Tells row) ↔
        call = .get p row.id ∧ w.store.isDeleted row.id = .ok false ∧
          ∃ a, (w.store.authorize p row.id).answer = .ok a ∧ a.canView = true) :=
    fun call hcall => (tells_rule_iff hw hp hrow hcall).trans (and_congr_right fun _ => hget)
  refine ⟨htells, fun a ha => ?_, fun hunruled a => rule_of_authorize hdistinct hrow hs hunruled,
    fun hnone hlive a ha => ?_, fun hhidden call hcall a ha htold => ?_⟩
  · obtain ⟨x, hx, rfl⟩ := perform_get_ok.mp ha
    obtain ⟨rule, hstores, hvalue⟩ := value_of_get_rule hdistinct hrow hs hx
    exact ⟨x, rule, rfl, hstores, hvalue⟩
  · refine Bool.eq_false_iff.mpr fun hview => ?_
    obtain ⟨a', ha', htold⟩ := (htells (.get p row.id) rfl).mpr ⟨rfl, hlive, a, ha, hview⟩
    exact hnone (.get p row.id) rfl a' ha' htold
  · obtain ⟨-, hlive, b, hb, hview⟩ := (htells call hcall).mp ⟨a, ha, htold⟩
    cases hview.symm.trans (hhidden hlive b hb)

/-! ## An editor who reads a rule -/

/-- The rule of `carol` at the shared folder, as a row. -/
theorem exists_rule_carol : ∃ row ∈ sharedFolder.store.tables.liveRules sharedHome,
    row.id = AccessRule.idFor sharedHome ⟨"carol"⟩ := by
  have hids : AccessRule.idFor sharedHome ⟨"carol"⟩ ∈
      (sharedFolder.store.tables.liveRules sharedHome).map (·.id) := by decide +kernel
  exact List.mem_map.mp hids

theorem not_owns_bob : ¬sharedFolder.store.Owns ⟨"bob"⟩ sharedHome := by decide +kernel

theorem get_rule_carol : ∃ x,
    (sharedFolder.get ⟨"bob"⟩ (AccessRule.idFor sharedHome ⟨"carol"⟩)).answer = .ok x := by
  have hsome : (sharedFolder.get ⟨"bob"⟩
      (AccessRule.idFor sharedHome ⟨"carol"⟩)).answer.toOption.isSome := by decide +kernel
  obtain ⟨x, hx⟩ := Option.isSome_iff_exists.mp hsome
  exact ⟨x, toOption_eq_some.mp hx⟩

/-- `bob`, who may view the folder and does not own it, reads all of the rule. -/
theorem reads_rule_carol : ¬sharedFolder.store.Owns ⟨"bob"⟩ sharedHome ∧
    ∃ row ∈ sharedFolder.store.tables.liveRules sharedHome, ∃ x rule,
      (sharedFolder.perform (.get ⟨"bob"⟩ row.id)).1 = .ok (.resource x) ∧ row.Stores rule ∧
        x.value = rule.toResource.value := by
  obtain ⟨row, hrow, hid⟩ := exists_rule_carol
  obtain ⟨-, hcontent, -⟩ := reads_rule_iff reachable_sharedFolder not_owns_bob hrow
  obtain ⟨x, hx⟩ := get_rule_carol
  have hperform : (sharedFolder.perform (.get ⟨"bob"⟩ row.id)).1 = .ok (.resource x) :=
    perform_get_ok.mpr ⟨x, hid ▸ hx, rfl⟩
  obtain ⟨_, rule, ⟨⟩, hstores, hvalue⟩ := hcontent _ hperform
  exact ⟨not_owns_bob, row, hrow, x, rule, hperform, hstores, hvalue⟩

/-- So rules are not read by owners only. -/
theorem exists_reads_rule :
    ¬∀ (w : Workspace) (p : Principal) (r : ResourceId), w.Reachable → ¬w.store.Owns p r →
      ∀ row ∈ w.store.tables.liveRules r, ∀ call : Call, call.reader? = some p →
        ∀ a, (w.perform call).1 = .ok a → ¬a.Tells row := by
  intro h
  obtain ⟨row, hrow, hid⟩ := exists_rule_carol
  have hreader : (Call.get ⟨"bob"⟩ row.id).reader? = some ⟨"bob"⟩ := rfl
  have htold := tells_rule_iff reachable_sharedFolder not_owns_bob hrow hreader
  obtain ⟨a, ha, htells⟩ := htold.mpr ⟨rfl, hid ▸ get_rule_carol⟩
  exact h sharedFolder ⟨"bob"⟩ sharedHome reachable_sharedFolder not_owns_bob row hrow _ rfl a ha htells

end Workspace

end Fieldbook
