import Fieldbook.Proofs.Form.Storing
import Fieldbook.Proofs.Ownership.Breaks
import Fieldbook.Proofs.Ownership.Failures
import Fieldbook.Proofs.Workspace.Agreement

/-!
# Proofs/Workspace/SystemRows — what stands as a rule, as a form, and under the root

Rules, forms and topmost folders are rows among others, under names, owners and classes that callers
choose.  Four kinds of calls write rows, each with a guard of its own: new folders, grants, and
resources that are put or put to be committed.  What each guard leaves is a resource as it may stand
in a workspace (`Resource.Regular`), and deletions and commits touch no name, owner, class or content
of a row.  So every row is regular (`regular_of_reachable`), and whoever asks for the rules at a
resource is never told of a rule that is none.

A row is regular for what was written into it.  Rules are always read again, but nothing limits how
deep the sections of a form lie in each other, and of a row whose value is nested too deeply nothing
is read (`exists_unread_form`).
-/

namespace Fieldbook

/-! ## Regular resources -/

/-- A resource as it may stand in a workspace. -/
structure Resource.Regular (r : Resource) : Prop where
  /-- Rules have the names of rules, and nothing else has. -/
  ruleName : r.classId = AccessRule.classId ↔ AccessRule.isRuleId r.id = true
  /-- A rule is read back under the name that belongs to it. -/
  rule : r.classId = AccessRule.classId → ∃ rule, AccessRule.ofResource r = .ok rule ∧
    rule.id = r.id ∧ r.id = AccessRule.idFor r.owner rule.principal
  /-- A form is read back, and is valid. -/
  form : r.classId = Form.classId →
    ∃ form, Form.ofResource r = .ok form ∧ form.validate = .ok ()
  /-- Only folders stand under the root. -/
  top : r.owner = .root → r.classId = Workspace.folderClass

/-- The version of a resource does not matter. -/
theorem Resource.Regular.at_version {r : Resource} (h : r.Regular) (v : Nat) :
    Regular { r with version := v } :=
  ⟨h.ruleName, h.rule, h.form, h.top⟩

/-- A rule at a resource below the root, under its own name. -/
theorem AccessRule.regular_toResource {rule : AccessRule}
    (hid : rule.id = idFor rule.resource rule.principal) (hbelow : rule.resource ≠ .root) :
    rule.toResource.Regular where
  ruleName := by
    refine iff_of_true rfl ?_
    change isRuleId rule.id = true
    rw [hid]
    exact isRuleId_idFor _ _
  rule := fun _ => ⟨rule, ofResource_toResource rule rfl rfl, rfl, hid⟩
  form := fun h => absurd h (by change classId ≠ Form.classId; decide)
  top := fun h => absurd h hbelow

namespace Workspace

variable {w : Workspace} {p : Principal} {r : Resource} {id : ResourceId} {call : Call}

theorem regular_rootFolder (hgen : id.IsGenerated) (label : String) :
    (rootFolder id label).Regular := by
  obtain ⟨hclass, hid⟩ := isOrdinary_rootFolder hgen label
  refine ⟨iff_of_false hclass (by rw [hid]; decide), fun h => absurd h hclass, fun h => ?_,
    fun _ => rfl⟩
  exact absurd h (by change folderClass ≠ Form.classId; decide)

theorem valid_of_checkForm (h : checkForm r = .ok ()) (hclass : r.classId = Form.classId) :
    ∃ form, Form.ofResource r = .ok form ∧ form.validate = .ok () := by
  rw [checkForm, if_pos hclass, Reading.mapError_ok] at h
  cases hform : Form.ofResource r with
  | error e =>
    rw [hform] at h
    cases h
  | ok form =>
    rw [hform] at h
    exact ⟨form, rfl, h⟩

/-- **What is put is regular:** it is no rule, valid if it is a form, and not under the root. -/
theorem regular_of_checkWrite (h : (w.checkWrite p r).answer = .ok ()) : r.Regular := by
  obtain ⟨⟨hclass, hid⟩, hbelow, hform, -⟩ := permits_of_checkWrite h
  exact ⟨iff_of_false hclass (by rw [hid]; decide), fun h => absurd h hclass,
    valid_of_checkForm hform, fun h => absurd h hbelow⟩

end Workspace

/-! ## Regular rows -/

namespace Row

variable {row : Row} {rows : List Row} {r : Resource} {stamp : Stamp} {p : Principal} {now : Int}
  {edit : Row → Row}

/-- The resource of a row that holds a record, at a version. -/
def resource (row : Row) (value : Record) (v : Nat) : Resource :=
  ⟨row.id, row.owner, row.classId, v, value⟩

/-- The row of a resource as it may stand in a workspace. -/
def Regular (row : Row) : Prop :=
  ∃ value, row.content = .encoded value ∧ ∀ v, (row.resource value v).Regular

theorem regular_afterWrite (h : r.Regular) :
    (afterWrite r stamp p now (rows.find? (·.id = r.id))).Regular := by
  refine ⟨r.value, afterWrite_content _, fun v => ?_⟩
  rw [resource, afterWrite_find?_id, afterWrite_owner, afterWrite_classId]
  exact h.at_version v

theorem Regular.of_keeps (h : row.Regular) (hkeeps : Keeps edit) : (edit row).Regular := by
  obtain ⟨value, hcontent, hregular⟩ := h
  refine ⟨value, (hkeeps.content row).trans hcontent, fun v => ?_⟩
  rw [resource, hkeeps.id, hkeeps.owner, hkeeps.classId]
  exact hregular v

theorem regular_write (hold : ∀ row ∈ rows, row.Regular) (h : r.Regular) :
    ∀ row ∈ write r stamp p now rows, row.Regular := by
  intro row hmem
  rcases mem_write hmem with hmem | rfl
  · exact hold row hmem
  · exact regular_afterWrite h

theorem regular_map (hold : ∀ row ∈ rows, row.Regular) (hkeeps : Keeps edit) :
    ∀ row ∈ rows.map edit, row.Regular := by
  intro row hmem
  obtain ⟨old, hold', rfl⟩ := List.mem_map.mp hmem
  exact (hold old hold').of_keeps hkeeps

end Row

namespace Workspace

variable {w : Workspace} {p : Principal} {id : ResourceId} {call : Call}

theorem ne_root_of_requireOwner {s : Store} (h : (s.requireOwner p id).answer = .ok ()) :
    id ≠ .root := by
  rintro rfl
  obtain ⟨a, ha, howner⟩ := Store.requireOwner_ok.mp h
  obtain rfl := Except.ok.inj (ha.symm.trans Store.authorize_root)
  cases howner

/-- **Every call leads from regular rows to regular rows.** -/
theorem regular_of_change {outcome : Except WorkspaceError Answer} {rows : List Row}
    (h : w.Change call outcome rows) (hold : ∀ row ∈ w.store.tables.rows, row.Regular)
    (hfresh : call.IsFresh w) : ∀ row ∈ rows, row.Regular := by
  cases h with
  | refused | read => exact hold
  | folder =>
    refine Row.regular_write ?_ (AccessRule.regular_toResource rfl hfresh.1.ne_root)
    exact Row.regular_write hold (regular_rootFolder hfresh.1 _)
  | write _ allowed => exact Row.regular_write hold (regular_of_checkWrite allowed)
  | grant allowed =>
    have hbelow := ne_root_of_requireOwner allowed
    exact Row.regular_write hold (AccessRule.regular_toResource rfl hbelow)
  | delete | revoke => exact Row.regular_map hold (Row.keeps_mark _ _)
  | commit => exact Row.regular_map hold (Row.keeps_restamp _ _)

theorem regular_of_reachable (hw : w.Reachable) : ∀ row ∈ w.store.tables.rows, row.Regular := by
  induction hw with
  | empty => exact fun _ h => nomatch h
  | @call w call before hfresh ih =>
    exact regular_of_change (change_of_perform (accounted_of_reachable before) call) ih hfresh

end Workspace

/-! ## Asking for rules -/

/-- Stored data that does not describe what it should. -/
def StoreError.isInvalidData : StoreError → Bool
  | .data (.invalid _) => true
  | _ => false

/-- Data, stored or not, that does not describe what it should. -/
def WorkspaceError.isInvalidData : WorkspaceError → Bool
  | .store e => e.isInvalidData
  | .data (.invalid _) => true
  | _ => false

/-- What is stored in a row is read or it is not; what it describes is not asked. -/
theorem Row.valid_read (row : Row) : FailsOnly (·.isInvalidData = false) row.read := by
  intro e h
  rw [read_eq] at h
  unfold decoded at h
  split at h
  · cases h
    rfl
  · split at h
    · split at h
      · cases h
        rfl
      · split at h <;> cases h <;> rfl
    · split at h <;> cases h <;> rfl

namespace Store

variable {s : Store} {q : Principal} {id : ResourceId}

theorem valid_get? (s : Store) (id : ResourceId) :
    FailsOnly (·.isInvalidData = false) (s.get? id) := by
  rw [get?]
  split
  · exact .ok _
  · next row _ => exact row.valid_read.map _

theorem valid_commitVersion? (s : Store) (m : Marker) :
    FailsOnly (·.isInvalidData = false) (s.commitVersion? m) := by
  rw [commitVersion?]
  split
  · exact .ok _
  · split
    · exact .error rfl
    · split
      · exact .ok _
      · split
        · exact .ok _
        · exact .error rfl

theorem valid_resolveVersion (s : Store) (e : Entry) :
    FailsOnly (·.isInvalidData = false) (s.resolveVersion e).answer := by
  rw [resolveVersion]
  split
  · exact .ok _
  · refine .reading (s.valid_commitVersion? _) fun found _ => ?_
    cases found with
    | none => exact .error rfl
    | some v => exact .ok _

theorem valid_ruleAt? (s : Store) (q : Principal) (id : ResourceId) :
    FailsOnly (·.isInvalidData = false) (s.ruleAt? q id).answer := by
  refine .reading (s.valid_get? _) fun found _ => ?_
  cases found with
  | none => exact .ok _
  | some e =>
    dsimp only
    split
    · exact .ok _
    · exact .reading (s.valid_resolveVersion e) fun _ _ => .ok _

theorem valid_authorize (s : Store) (q : Principal) (id : ResourceId) :
    FailsOnly (·.isInvalidData = false) (s.authorize q id).answer := by
  intro e h
  rcases authorize_error h with ⟨b, hb, rfl⟩ | ⟨y, e', hrule, rfl⟩
  · cases b with
    | again => rfl
    | lost y =>
      rw [Break.error, OwnerChain.missingError]
      split <;> rfl
    | unreadable y e' =>
      obtain ⟨row, -, hread⟩ := hb.of_unreadable
      exact row.valid_read e' hread
  · exact s.valid_ruleAt? q y e' hrule

end Store

namespace Workspace

variable {w : Workspace} {p : Principal} {id : ResourceId}

/-- **A row that is regular is told as a rule,** if it is one. -/
theorem valid_rule? {row : Row} {e : Entry} (h : row.Regular) (hread : row.read = .ok e) :
    FailsOnly (·.isInvalidData = false) (w.rule? e).answer := by
  rw [rule?]
  split
  · exact .ok _
  · next hrule =>
    refine .reading ((w.store.valid_resolveVersion e).mapError fun _ h => h) fun v _ => ?_
    refine .reading ?_ fun _ _ => .ok _
    have hclass : e.classId = AccessRule.classId := not_not.mp fun h => hrule (.inr h)
    obtain ⟨value, hcontent, hregular⟩ := h
    obtain ⟨-, -, value', createdAt, hvalue, -, rfl⟩ := Row.read_ok_iff.mp hread
    rw [hcontent] at hvalue
    obtain ⟨-, rfl⟩ := Content.record?_encoded.mp hvalue
    obtain ⟨rule, hof, -⟩ := (hregular v).rule hclass
    change FailsOnly _ ((AccessRule.ofResource (row.resource value v)).mapError WorkspaceError.data)
    rw [hof]
    exact .ok rule

/-- **Whoever asks for rules** is never told of one that is none. -/
theorem valid_rules (hrows : ∀ row ∈ w.store.tables.rows, row.Regular) (p : Principal)
    (id : ResourceId) : FailsOnly (·.isInvalidData = false) (w.rules p id).answer := by
  refine .reading (.requireOwner (fun _ _ _ => rfl) (w.store.valid_authorize p id)) fun _ _ => ?_
  refine .reading (.mapError (.mapM fun row _ => row.valid_read) fun _ h => h) fun entries h => ?_
  refine .collect fun e he => ?_
  obtain ⟨-, rfl⟩ := Row.mapM_read_ok.mp (Reading.mapError_ok.mp h)
  obtain ⟨row, hrow, hread⟩ := List.mem_filterMap.mp he
  exact valid_rule? (hrows row (List.mem_filter.mp hrow).1) (toOption_eq_some.mp hread)

/-- A row of a rule, in sound tables, is read as that rule, and so are its bytes. -/
theorem rule_of_stores {row : Row} {rule : AccessRule} (h : row.Stores rule) :
    ∃ rule, row.content.record? = some rule.toResource.value ∧
      (∀ v, AccessRule.ofResource (row.resource rule.toResource.value v) = .ok rule) ∧
      rule.id = row.id ∧ row.id = AccessRule.idFor row.owner rule.principal ∧
      (rule.Fits → Record.decode? row.content.bytes = some rule.toResource.value) := by
  refine ⟨{ rule with id := row.id, resource := row.owner }, h.record?_eq,
    fun v => AccessRule.ofResource_toResource rule h.classId rfl, rfl, h.id, fun hfits => ?_⟩
  obtain ⟨hformed, hfit, -⟩ := rule.sized_toResource
  rw [← Content.record?_eq_decode?]
  · exact h.record?_eq
  · intro r hr
    cases h.content.symm.trans hr
    exact ⟨hformed, hfit.mpr hfits⟩

/-- **What stands as a rule, as a form, and under the root.**  In every workspace that calls lead to
a row is of the class of rules just when its name is that of a rule, and then a rule is read of it,
under the name that belongs to its owner and principal.  A row of the class of forms was written as a
valid form, and that form is read of it unless it is nested too deeply; then nothing is.  Only folders
stand under the root.  What is read of a row is what its bytes say, where four bytes are enough to
count texts and lists.  So asking for the rules at a resource never fails because of data that
describe no rule. -/
theorem systemRows (hw : w.Reachable) :
    (∀ row ∈ w.store.tables.rows,
      (row.classId = AccessRule.classId ↔ AccessRule.isRuleId row.id = true) ∧
      (row.classId = AccessRule.classId → ∃ rule : AccessRule,
        row.content.record? = some rule.toResource.value ∧
        (∀ v, AccessRule.ofResource (row.resource rule.toResource.value v) = .ok rule) ∧
        rule.id = row.id ∧ row.id = AccessRule.idFor row.owner rule.principal ∧
        (rule.Fits → Record.decode? row.content.bytes = some rule.toResource.value)) ∧
      (row.classId = Form.classId → ∃ value form, row.content = .encoded value ∧
        (∀ v, Form.ofResource (row.resource value v) = .ok form) ∧ form.validate = .ok () ∧
        row.content.record? = (if value.Shallow then some value else none) ∧
        (value.WellFormed → value.Fits →
          Record.decode? row.content.bytes = row.content.record?)) ∧
      (row.owner = .root → row.classId = folderClass)) ∧
    ∀ p id e, (w.rules p id).answer = .error e → e.isInvalidData = false := by
  have hrows := regular_of_reachable hw
  refine ⟨fun row hmem => ?_, fun p id e h => valid_rules hrows p id e h⟩
  obtain ⟨value, hcontent, hregular⟩ := hrows row hmem
  refine ⟨(hregular 0).ruleName, fun hclass => ?_, fun hclass => ?_, (hregular 0).top⟩
  · obtain ⟨rule, hstores⟩ := ((sound_of_reachable hw).rows row hmem).rule (.inl hclass)
    exact rule_of_stores hstores
  · obtain ⟨form, hof, hvalid⟩ := (hregular 0).form hclass
    refine ⟨value, form, hcontent, fun v => hof, hvalid, ?_, fun hformed hfits => ?_⟩
    · rw [hcontent]
      rfl
    · refine (Content.record?_eq_decode? fun r hr => ?_).symm
      cases hcontent.symm.trans hr
      exact ⟨hformed, hfits⟩

/-- In the survey the rule for `alice` comes back from its bytes, and the form is valid. -/
theorem systemRows_surveyHome :
    surveyHome.Reachable ∧
      (∃ row ∈ surveyHome.store.tables.rows, row.id = AccessRule.idFor surveyFolder ⟨"alice"⟩ ∧
        Record.decode? row.content.bytes =
          some (AccessRule.ownerRule surveyFolder ⟨"alice"⟩).toResource.value) ∧
      ∃ row ∈ surveyHome.store.tables.rows, row.id = ⟨"site"⟩ ∧ ∃ value form,
        row.content.record? = some value ∧ Form.ofResource (row.resource value 0) = .ok form ∧
          form.validate = .ok () := by
  obtain ⟨hrows, -⟩ := systemRows reachable_surveyHome
  have hfound : ∀ {id : ResourceId} {row : Row}, surveyHome.store.tables.row? id = some row →
      row ∈ surveyHome.store.tables.rows ∧ row.id = id :=
    fun h => ⟨OwnerChain.row?_mem h, OwnerChain.row?_id h⟩
  refine ⟨reachable_surveyHome, ?_, ?_⟩
  · have hrule : (surveyHome.store.tables.row? (AccessRule.idFor surveyFolder ⟨"alice"⟩)).map
        (fun row => (row.classId, row.content.record?)) = some (AccessRule.classId,
          some (AccessRule.ownerRule surveyFolder ⟨"alice"⟩).toResource.value) := by
      decide +kernel
    obtain ⟨row, hrow, hfields⟩ := Option.map_eq_some_iff.mp hrule
    obtain ⟨hclass, hcontent⟩ := Prod.mk.inj hfields
    obtain ⟨hmem, hid⟩ := hfound hrow
    obtain ⟨-, hread, -⟩ := hrows row hmem
    obtain ⟨rule, hvalue, hof, -, -, hbytes⟩ := hread hclass
    have heq := Option.some.inj (hvalue.symm.trans hcontent)
    have hstored : AccessRule.ofResource (row.resource rule.toResource.value 0) = .ok _ :=
      AccessRule.ofResource_toResource (AccessRule.ownerRule surveyFolder ⟨"alice"⟩) hclass heq
    have hfits : rule.Fits := by
      rw [Except.ok.inj ((hof 0).symm.trans hstored)]
      exact ⟨(by decide : MessagePack.TextFits "alice"), nofun, nofun⟩
    exact ⟨row, hmem, hid, heq ▸ hbytes hfits⟩
  · have hform : (surveyHome.store.tables.row? ⟨"site"⟩).map
        (fun row => (row.classId, row.content.record?.isSome)) = some (Form.classId, true) := by
      decide +kernel
    obtain ⟨row, hrow, hfields⟩ := Option.map_eq_some_iff.mp hform
    obtain ⟨hclass, hsome⟩ := Prod.mk.inj hfields
    obtain ⟨hmem, hid⟩ := hfound hrow
    obtain ⟨-, -, hread, -⟩ := hrows row hmem
    obtain ⟨value, form, -, hof, hvalid, hvalue, -⟩ := hread hclass
    refine ⟨row, hmem, hid, value, form, ?_, hof 0, hvalid⟩
    rw [hvalue] at hsome ⊢
    split at hsome
    · next hshallow => rw [if_pos hshallow]
    · cases hsome

/-- The survey with a form of sections in each other, too many by one. -/
def putNestedForm : Call := .putForm ⟨"alice"⟩ 0 { nestedForm 338 with owner := surveyFolder }

theorem done_putNestedForm : (surveyHome.perform putNestedForm).1.isOk = true := by
  decide +kernel

/-- So not of every row of the class of forms a form is read. -/
theorem exists_unread_form :
    ¬∀ w : Workspace, w.Reachable → ∀ row ∈ w.store.tables.rows, row.classId = Form.classId →
      ∃ value form, row.content.record? = some value ∧
        Form.ofResource (row.resource value 0) = .ok form ∧ form.validate = .ok () := by
  intro h
  let form : Form := { nestedForm 338 with owner := surveyFolder }
  have asked : putNestedForm.written? = some (⟨"alice"⟩, 0, form.toResource) := rfl
  obtain ⟨-, stamp, hrows⟩ :=
    rows_of_written (accounted_of_reachable reachable_surveyHome) asked done_putNestedForm
  have hrow := (Tables.row?_of_write hrows form.toResource.id).trans (if_pos rfl)
  have hreach : (surveyHome.perform putNestedForm).2.Reachable :=
    reachable_surveyHome.call trivial
  obtain ⟨value, _, hvalue, -⟩ :=
    h _ hreach _ (OwnerChain.row?_mem hrow) (Row.afterWrite_classId _)
  rw [Row.afterWrite_content] at hvalue
  obtain ⟨hshallow, -⟩ := Content.record?_encoded.mp hvalue
  have hlevels : form.toResource.value.nesting = 3 * 338 + 10 :=
    form.sized_toResource.nesting_eq.trans (levels_nestedForm 338)
  rw [Record.Shallow, hlevels] at hshallow
  exact absurd hshallow (by decide)

end Workspace

end Fieldbook
