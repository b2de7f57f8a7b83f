import Fieldbook.Proofs.Workspace.LiveRules
import Fieldbook.Proofs.Workspace.Pending
import Fieldbook.Proofs.Workspace.Walks

/-!
# Proofs/Workspace/Taking — how somebody becomes an owner

A principal who does not own a resource may become an owner of it by calls of their own.  Whoever
may edit a resource may move it to an owner that they may edit, and whoever owns that one owns the
resource from then on, with all that stands under it, up to where a rule says otherwise
(`Workspace.Takes`); but nobody does if it is moved with a value that cannot be read.  As long as
the principal keeps to rules at resources of their own (`Workspace.KeepsToOwn`), there is no other
way: one call makes an owner exactly when it takes the resource (`owns_perform_iff`), and a run of
calls makes none exactly when none of them does (`not_owns_run_iff`).
-/

namespace Fieldbook

/-- The row of a rule that a call deletes by its name. -/
def Call.deletedRule? (t : Tables) : Call → Option Row
  | .delete _ id => if AccessRule.isRuleId id then t.row? id else none
  | _ => none

/-- The resource at which a rule stands that a call writes or deletes, and the name of the rule. -/
def Call.ruleOf? (t : Tables) : Call → Option (ResourceId × ResourceId)
  | .createRootFolder owner _ id _ => some (id, AccessRule.idFor id owner)
  | .delete principal id =>
    ((Call.delete principal id).deletedRule? t).map fun row => (row.owner, row.id)
  | .grant _ _ rule => some (rule.resource, AccessRule.idFor rule.resource rule.principal)
  | .revoke _ id grantee => some (id, AccessRule.idFor id grantee)
  | _ => none

/-- The name is that of rules at `r` alone: none of another resource is stored under it, and none at
another resource would be found under it for `p`. -/
def Tables.NamesOnly (t : Tables) (p : Principal) (name r : ResourceId) : Prop :=
  ∀ row ∈ t.rows, (row.id = name → row.owner = r) ∧
    (AccessRule.idFor row.id p = name → row.id = r)

instance (t : Tables) (p : Principal) (name r : ResourceId) : Decidable (t.NamesOnly p name r) :=
  inferInstanceAs (Decidable (∀ row ∈ t.rows, _))

/-! ## Stores after a change -/

namespace Store

variable {s s' : Store} {q : Principal} {apart : ResourceId → Prop} {edit : Row → Row}
  {x : Resource} {stamp : Stamp} {p : Principal} {now : Int}

/-- An edit changes no owner, so it matters where it edits a rule for the principal. -/
theorem agree_of_edit (hs : s.tables.Sound)
    (hrows : s'.tables.rows = s.tables.rows.map edit) (hedit : Row.Keeps edit)
    (hrules : ∀ y row, (s.tables.row? y).isSome → ¬apart y →
      s.tables.row? (AccessRule.idFor y q) = some row → edit row = row) : s.Agree s' q apart := by
  have hrow? := Tables.row?_of_edit hrows hedit
  refine ⟨hs, fun y hy hne => ?_, fun y row found _ => ?_⟩
  · rw [hrow?]
    cases hrow : s.tables.row? (AccessRule.idFor y q) with
    | none => rfl
    | some row => rw [Option.map_some, hrules y row hy hne hrow]
  · refine ⟨edit row, by rw [hrow?, found]; rfl, hedit.owner row, fun entry' read' => ?_⟩
    have hcontent := Row.isSome_record?_of_read read'
    rw [hedit.content] at hcontent
    exact (hs.sound_row found).read_of_same (hedit.createdAt row).symm hcontent read'

/-- A write matters where it writes a rule for the principal, and where it moves a resource. -/
theorem agree_of_write (hs : s.tables.Sound)
    (hrows : s'.tables.rows = Row.write x stamp p now s.tables.rows)
    (hrules : ∀ y, (s.tables.row? y).isSome → ¬apart y → AccessRule.idFor y q ≠ x.id)
    (hmoved : ∀ row, s.tables.row? x.id = some row → ¬apart x.id → x.owner = row.owner)
    (hcontent : ∀ row, s.tables.row? x.id = some row → row.content.record?.isSome) :
    s.Agree s' q apart := by
  have hrow? := Tables.row?_of_write hrows
  refine ⟨hs, fun y hy hne => ?_, fun y row found hne => ?_⟩
  · rw [hrow?, if_neg (hrules y hy hne)]
  · by_cases hid : y = x.id
    · subst hid
      refine ⟨_, (hrow? x.id).trans (if_pos rfl), ?_, fun entry' read' => ?_⟩
      · rw [Row.afterWrite_owner]
        exact hmoved row found hne
      · refine (hs.sound_row found).read_of_same ?_ (hcontent row found) read'
        rw [found]
        rfl
    · exact ⟨row, by rw [hrow?, if_neg hid, found], rfl, fun entry read => ⟨entry, read⟩⟩

end Store

namespace Workspace

variable {w : Workspace} {call : Call} {p : Principal} {r : ResourceId} {x : Resource} {now : Int}

/-! ## Calls that keep to one's own rules -/

/-- A call that nobody but `p` asks for, and that leaves the rules at resources of others alone. -/
structure KeepsToOwn (w : Workspace) (p : Principal) (call : Call) : Prop where
  fresh : call.IsFresh w
  mine : ∀ q ∈ call.writer?, q = p
  /-- A rule that is deleted by its name stands at a resource that `p` owns. -/
  deletes : (w.perform call).1.isOk = true →
    ∀ row ∈ call.deletedRule? w.store.tables, w.store.Owns p row.owner
  /-- The name of a rule that is written or deleted belongs to its resource. -/
  named : (w.perform call).1.isOk = true →
    ∀ rule ∈ call.ruleOf? w.store.tables, w.store.tables.NamesOnly p rule.2 rule.1

instance (w : Workspace) (p : Principal) (call : Call) : Decidable (KeepsToOwn w p call) :=
  decidable_of_iff (call.IsFresh w ∧ (∀ q ∈ call.writer?, q = p) ∧
      ((w.perform call).1.isOk = true →
        ∀ row ∈ call.deletedRule? w.store.tables, w.store.Owns p row.owner) ∧
      ((w.perform call).1.isOk = true →
        ∀ rule ∈ call.ruleOf? w.store.tables, w.store.tables.NamesOnly p rule.2 rule.1))
    ⟨fun ⟨fresh, mine, deletes, named⟩ => ⟨fresh, mine, deletes, named⟩,
      fun ⟨fresh, mine, deletes, named⟩ => ⟨fresh, mine, deletes, named⟩⟩

/-- What a name belongs to, said of what is found. -/
theorem owner_of_namesOnly {t : Tables} {name : ResourceId} {row : Row} (h : t.NamesOnly p name r)
    (found : t.row? name = some row) : row.owner = r :=
  (h row (OwnerChain.row?_mem found)).1 (Row.id_of_find? found)

theorem eq_of_namesOnly {t : Tables} {name y : ResourceId} (h : t.NamesOnly p name r)
    (hy : (t.row? y).isSome) (hname : AccessRule.idFor y p = name) : y = r := by
  obtain ⟨row, found⟩ := Option.isSome_iff_exists.mp hy
  have hid := Row.id_of_find? found
  rw [← hid] at hname ⊢
  exact (h row (OwnerChain.row?_mem found)).2 hname

/-- The places where a change could make an owner are places that `p` owns. -/
def ChangesOwn (w : Workspace) (p : Principal) (s' : Store) : Prop :=
  ∃ apart, w.store.Agree s' p apart ∧ ∀ y, apart y → w.store.Owns p y

/-- Nothing of what was there is changed for `p`. -/
theorem changesOwn_of_agree {s' : Store} (h : w.store.Agree s' p fun _ => False) :
    w.ChangesOwn p s' :=
  ⟨_, h, fun _ ha => ha.elim⟩

/-- Rules at one resource are changed for nobody elsewhere. -/
theorem changesOwn_of_mark {s' : Store} {name : ResourceId} {v : Nat} (hs : w.store.tables.Sound)
    (hrows : s'.tables.rows = w.store.tables.rows.map (Row.mark name v))
    (hnamed : w.store.tables.NamesOnly p name r) (howns : w.store.Owns p r) :
    w.ChangesOwn p s' := by
  have hkeeps := Row.keeps_mark name v
  refine ⟨(· = r), Store.agree_of_edit hs hrows hkeeps ?_, fun y hy => hy ▸ howns⟩
  intro y row hy hne found
  refine Row.mark_of_ne name v row fun hid => hne (eq_of_namesOnly hnamed hy ?_)
  exact (Row.id_of_find? found).symm.trans hid

/-- A new folder and its rule stand apart from all that was there. -/
theorem agree_of_folder {s' : Store} {owner : Principal} {id : ResourceId} {label : String}
    {v v' : Nat} (hs : w.store.tables.Sound)
    (hrows : s'.tables.rows = Row.write (AccessRule.ownerRule id owner).toResource (.committed v')
      owner now (Row.write (rootFolder id label) (.committed v) owner now w.store.tables.rows))
    (hgen : id.IsGenerated) (hnew : w.store.tables.row? id = none)
    (hnamed : w.store.tables.NamesOnly p (AccessRule.idFor id owner) id) :
    w.store.Agree s' p fun _ => False := by
  let t := w.store.tables.written (rootFolder id label) v owner now
  have hsame : ∀ y, y ≠ id → y ≠ AccessRule.idFor id owner →
      s'.tables.row? y = w.store.tables.row? y := by
    intro y hid hname
    have hrule := Tables.row?_of_write (t := t) hrows y
    have hfolder : t.row? y = _ := Tables.row?_of_write rfl y
    exact (hrule.trans (if_neg hname)).trans (hfolder.trans (if_neg hid))
  have hthere : ∀ {y}, (w.store.tables.row? y).isSome → y ≠ id := by
    rintro y hy rfl
    rw [hnew] at hy
    cases hy
  refine ⟨hs, fun y hy _ => hsame _ ?_ ?_,
    fun y row found _ => ⟨row, ?_, rfl, fun entry read => ⟨entry, read⟩⟩⟩
  · exact (isOrdinary_rootFolder hgen label).idFor_ne y p
  · exact fun hname => hthere hy (eq_of_namesOnly hnamed hy hname)
  · rw [hsame y (hthere (by rw [found]; rfl)), found]
    -- the name of the new rule is that of no row, since its owner would be there
    rintro rfl
    have howner := hs.has_owner found
    rw [owner_of_namesOnly hnamed found] at howner
    exact hthere (howner.resolve_left hgen.ne_root) rfl

/-- **A call that moves nothing** changes only what `p` owns. -/
theorem changesOwn_of_change {outcome : Except WorkspaceError Answer} {rows : List Row} {s' : Store}
    (h : w.Change call outcome rows) (houtcome : (w.perform call).1 = outcome)
    (hs : w.store.tables.Sound) (hrows : s'.tables.rows = rows) (hkeeps : w.KeepsToOwn p call)
    (hstays : ∀ q now x, call.written? = some (q, now, x) → outcome.isOk = true → ¬w.Moved x) :
    w.ChangesOwn p s' := by
  have hnamed := hkeeps.named
  have hdeletes := hkeeps.deletes
  rw [houtcome] at hnamed hdeletes
  cases h with
  | refused | read =>
    have hrows' := Tables.rows_eq_map_self hrows
    exact changesOwn_of_agree
      (Store.agree_of_edit hs hrows' Row.keeps_self fun _ _ _ _ _ => rfl)
  | folder =>
    obtain ⟨hgen, hnew⟩ := hkeeps.fresh
    exact changesOwn_of_agree (agree_of_folder hs hrows hgen hnew (hnamed rfl _ rfl))
  | @write _ _ _ x _ _ asked allowed =>
    obtain ⟨hord, hwritable⟩ := writable_of_checkWrite allowed
    refine changesOwn_of_agree (Store.agree_of_write hs hrows (fun y _ _ => hord.idFor_ne y p)
      (fun row found _ => ?_) fun row found => ?_)
    · refine Classical.byContradiction fun hne => hstays _ _ x asked rfl ⟨row, found, ?_⟩
      exact fun heq => hne heq.symm
    · obtain ⟨entry, read⟩ := hwritable.read found
      exact Row.isSome_record?_of_read read
  | @delete q id _ v allowed =>
    obtain ⟨hthere, -⟩ := checkDelete_ok allowed
    obtain ⟨row, found⟩ := Option.isSome_iff_exists.mp hthere
    have hid := Row.id_of_find? found
    by_cases hname : AccessRule.isRuleId id
    · have hdeleted : row ∈ (Call.delete q id).deletedRule? w.store.tables := by
        rw [Call.deletedRule?, if_pos hname, found]
        rfl
      have honly := hnamed rfl (row.owner, row.id) (Option.mem_map_of_mem _ hdeleted)
      rw [hid] at honly
      exact changesOwn_of_mark hs hrows honly (hdeletes rfl row hdeleted)
    · refine changesOwn_of_agree (Store.agree_of_edit hs hrows (Row.keeps_mark id v) ?_)
      intro y row _ _ found
      refine Row.mark_of_ne id v row fun heq => hname ?_
      rw [← heq, Row.id_of_find? found]
      exact AccessRule.isRuleId_idFor y p
  | @grant q _ rule _ _ allowed =>
    obtain rfl := hkeeps.mine q rfl
    have honly := hnamed rfl _ rfl
    refine ⟨(· = rule.resource), Store.agree_of_write hs hrows ?_ ?_ ?_, ?_⟩
    · exact fun y hy hne hid => hne (eq_of_namesOnly honly hy hid)
    · exact fun row found _ => (owner_of_namesOnly honly found).symm
    · intro row found
      obtain ⟨old, hold⟩ := hs.stores found
      exact Option.isSome_of_eq_some hold.record?_eq
    · rintro y rfl
      exact Store.owns_iff_authorize.mpr (Store.requireOwner_ok.mp allowed)
  | @revoke q id _ _ _ allowed =>
    obtain rfl := hkeeps.mine q rfl
    have howns := Store.owns_iff_authorize.mpr (Store.requireOwner_ok.mp allowed)
    exact changesOwn_of_mark hs hrows (hnamed rfl _ rfl) howns
  | @commit m _ v =>
    refine changesOwn_of_agree (Store.agree_of_edit hs hrows (Row.keeps_restamp m v) ?_)
    intro y row _ _ found
    obtain ⟨rule, hstores⟩ := hs.stores found
    exact hstores.restamp

/-! ## Calls that move a resource -/

/-- The call is done, and moves a resource to an owner that `p` owns, with a value that can be read.
The walk of `p` from `r` comes to that resource and through it: up to there, and at it, there is no
rule for `p`. -/
def Takes (w : Workspace) (p : Principal) (r : ResourceId) (call : Call) : Prop :=
  ∃ now x, call.written? = some (p, now, x) ∧ (w.perform call).1.isOk = true ∧ w.Moved x ∧
    w.store.Comes p (· = x.id) r ∧ (w.store.ruleAt? p x.id).answer = .ok none ∧
    x.value.Shallow ∧ w.store.Owns p x.owner

section Moved

variable {s' : Store} {stamp : Stamp} (hs : w.store.tables.Sound) (hs' : s'.tables.Sound)
  (hrows : s'.tables.rows = Row.write x stamp p now w.store.tables.rows)
include hs hs' hrows

theorem agree_of_ordinary (hord : x.IsOrdinary) :
    w.store.Agree s' p (· = x.id) ∧ s'.Agree w.store p (· = x.id) := by
  have hrow? := Tables.row?_of_write hrows
  exact Store.agree_of_same hs hs' (fun y hne => (hrow? y).trans (if_neg hne))
    fun y => (hrow? _).trans (if_neg (hord.idFor_ne y p))

/-- The new owner does not stand under the resource, so it is owned by whom it was.  Where the value
cannot be read, the walk ends at the resource. -/
theorem owns_owner_of_moved (hord : x.IsOrdinary) (hwritable : w.Writable x) (hmoved : w.Moved x)
    (hnone : (w.store.ruleAt? p x.id).answer = .ok none) :
    s'.Owns p x.id ↔ x.value.Shallow ∧ w.store.Owns p x.owner := by
  obtain ⟨hagree, hagree'⟩ := agree_of_ordinary hs hs' hrows hord
  obtain ⟨old, hold, hne⟩ := hmoved
  cases hwritable with
  | new new => cases hold.symm.trans new
  | kept _ found _ _ same =>
    obtain rfl := Option.some.inj (hold.symm.trans found)
    exact absurd same hne
  | @moved row entry below found read live out owner =>
    have hrow := (Tables.row?_of_write hrows x.id).trans (if_pos rfl)
    have hrule := (Store.ruleAt?_of_ordinary hs hrows hord p x.id).trans hnone
    obtain ⟨path, hclimb, hout⟩ := Store.climb_of_isWithin out
    have hpast : ¬w.store.Comes p (· = x.id) x.owner := by
      intro hc
      obtain ⟨y, hroot | hy, rfl⟩ := hc.exists_mem hclimb
      · exact below hroot
      · exact hout hy
    have howner : s'.Owns p x.owner ↔ w.store.Owns p x.owner := by
      have hthere : s'.tables.Has x.owner := Tables.Has.of_write hclimb.start hrows
      have hpast' := fun hc => hpast (hagree.comes hc hclimb.start)
      exact ⟨hagree.owns hclimb.start hpast, hagree'.owns hthere hpast'⟩
    constructor
    · intro howns
      obtain ⟨row', entry', found', read'⟩ := howns.exists_read below hrule
      obtain rfl := Option.some.inj (hrow.symm.trans found')
      have hup := (Store.owns_owner_iff below hrule hrow read').mp howns
      rw [Row.afterWrite_owner] at hup
      exact ⟨Row.shallow_of_read read', howner.mp hup⟩
    · rintro ⟨hshallow, howns⟩
      obtain ⟨entry', read'⟩ := hs'.read_of_write hrows found read hshallow
      refine (Store.owns_owner_iff below hrule hrow read').mpr ?_
      rw [Row.afterWrite_owner]
      exact howner.mpr howns

/-- **Who owns what after a move:** where the walk comes through the moved resource, the owners of
its new owner do. -/
theorem owns_iff_of_moved (hord : x.IsOrdinary) (hwritable : w.Writable x) (hmoved : w.Moved x)
    (hr : w.store.tables.Has r) (hnot : ¬w.store.Owns p r) :
    s'.Owns p r ↔ w.store.Comes p (· = x.id) r ∧
      (w.store.ruleAt? p x.id).answer = .ok none ∧ x.value.Shallow ∧ w.store.Owns p x.owner := by
  obtain ⟨hagree, hagree'⟩ := agree_of_ordinary hs hs' hrows hord
  by_cases hcomes : w.store.Comes p (· = x.id) r
  · obtain ⟨_, rfl, hbefore⟩ := hcomes.exists_owns_iff
    obtain ⟨_, rfl, hafter⟩ := (hagree'.comes hcomes (hr.of_write hrows)).exists_owns_iff
    by_cases hnone : (w.store.ruleAt? p x.id).answer = .ok none
    · simp only [hcomes, hnone, true_and]
      exact hafter.trans (owns_owner_of_moved hs hs' hrows hord hwritable hmoved hnone)
    · -- the rule at the resource decides, as it did before
      have hsame := Store.owns_iff_of_ruled (Store.ruleAt?_of_ordinary hs hrows hord p x.id) hnone
      refine iff_of_false (fun howns => ?_) fun ⟨_, h, _⟩ => hnone h
      exact hnot (hbefore.mpr (hsame.mp (hafter.mp howns)))
  · refine iff_of_false (fun howns => ?_) fun ⟨h, _⟩ => hcomes h
    exact hnot (hagree.owns hr hcomes howns)

end Moved

/-! ## Becoming an owner -/

theorem Call.writer?_of_written? {q : Principal} (asked : call.written? = some (q, now, x)) :
    call.writer? = some q := by
  cases call <;> first | (cases asked; rfl) | cases asked

/-- **One call makes an owner exactly when it takes the resource.** -/
theorem owns_perform_iff (hw : w.Reachable) (hr : (w.store.tables.row? r).isSome)
    (hnot : ¬w.store.Owns p r) (hkeeps : w.KeepsToOwn p call) :
    (w.perform call).2.store.Owns p r ↔ w.Takes p r call := by
  have hs := sound_of_reachable hw
  have hs' : (w.perform call).2.store.tables.Sound :=
    sound_of_reachable (.call hw hkeeps.fresh)
  by_cases hmoves : ∃ q now x, call.written? = some (q, now, x) ∧
      (w.perform call).1.isOk = true ∧ w.Moved x
  · obtain ⟨q, now, x, asked, hok, hmoved⟩ := hmoves
    obtain rfl := hkeeps.mine q (Call.writer?_of_written? asked)
    obtain ⟨allowed, stamp, hrows⟩ := rows_of_written (accounted_of_reachable hw) asked hok
    obtain ⟨hord, hwritable⟩ := writable_of_checkWrite allowed
    rw [owns_iff_of_moved hs hs' hrows hord hwritable hmoved (.inr hr) hnot]
    constructor
    · exact fun h => ⟨now, x, asked, hok, hmoved, h⟩
    · rintro ⟨now', x', asked', -, -, h⟩
      cases asked.symm.trans asked'
      exact h
  · have hstays : ∀ q now x, call.written? = some (q, now, x) →
        (w.perform call).1.isOk = true → ¬w.Moved x :=
      fun q now x asked hok hmoved => hmoves ⟨q, now, x, asked, hok, hmoved⟩
    have hchange := change_of_perform (accounted_of_reachable hw) call
    obtain ⟨apart, hagree, hapart⟩ := changesOwn_of_change hchange rfl hs rfl hkeeps hstays
    refine iff_of_false (hagree.not_owns hapart (.inr hr) hnot) ?_
    rintro ⟨now, x, asked, hok, hmoved, -⟩
    exact hstays p now x asked hok hmoved

/-- What is there stays there. -/
theorem isSome_perform (hs : w.store.Accounted) (call : Call)
    (hr : (w.store.tables.row? r).isSome) :
    ((w.perform call).2.store.tables.row? r).isSome := by
  have hchange := change_of_perform hs call
  generalize (w.perform call).2.store.tables = t' at hchange ⊢
  generalize (w.perform call).1 = outcome at hchange
  generalize hrows : t'.rows = rows at hchange
  cases hchange with
  | refused | read =>
    rw [Tables.row?, hrows]
    exact hr
  | folder =>
    rw [Tables.row?, hrows]
    exact Row.isSome_find?_write (Row.isSome_find?_write hr)
  | write | grant =>
    rw [Tables.row?, hrows]
    exact Row.isSome_find?_write hr
  | delete | revoke =>
    rw [Tables.row?_of_edit hrows (Row.keeps_mark _ _), Option.isSome_map]
    exact hr
  | commit =>
    rw [Tables.row?_of_edit hrows (Row.keeps_restamp _ _), Option.isSome_map]
    exact hr

/-- **How somebody becomes an owner.**  A principal who does not own a resource, and keeps to rules
at resources of their own, is an owner after none of some calls exactly when none of the calls takes
the resource. -/
theorem not_owns_run_iff : ∀ (calls : List Call) {w : Workspace}, w.Reachable →
    (w.store.tables.row? r).isSome → ¬w.store.Owns p r →
      AllowedAlong (fun w call => w.KeepsToOwn p call) w calls →
        ((∀ done, done <+: calls → ¬(w.run done).store.Owns p r) ↔
          AllowedAlong (fun w call => ¬w.Takes p r call) w calls)
  | [], w, _, _, hnot, _ => by
    refine iff_of_true (fun done hdone => ?_) trivial
    rw [List.prefix_nil.mp hdone]
    exact hnot
  | call :: rest, w, hw, hr, hnot, ⟨hkeeps, hall⟩ => by
    have hstep := owns_perform_iff hw hr hnot hkeeps
    have hw' : (w.perform call).2.Reachable := .call hw hkeeps.fresh
    have hr' := isSome_perform (accounted_of_reachable hw) call hr
    constructor
    · intro h
      have hnot' := h [call] (List.prefix_append [call] rest)
      refine ⟨fun htakes => hnot' (hstep.mpr htakes), ?_⟩
      refine (not_owns_run_iff rest hw' hr' hnot' hall).mp fun done hdone => ?_
      exact h (call :: done) (List.cons_prefix_cons.mpr ⟨rfl, hdone⟩)
    · rintro ⟨htakes, hrest⟩ done hdone
      have hnot' : ¬(w.perform call).2.store.Owns p r := fun howns => htakes (hstep.mp howns)
      rcases List.prefix_cons_iff.mp hdone with rfl | ⟨done', rfl, hdone'⟩
      · exact hnot
      · exact (not_owns_run_iff rest hw' hr' hnot' hall).mpr hrest done' hdone'

/-! ## An editor who takes a note -/

/-- The name of the folder of `bob`. -/
def hut : ResourceId := ⟨"c0198c3f2a7b07d1e9f5b4c6d8e0f1a2c"⟩

/-- A folder with a note that `bob` may edit, and a folder of his own. -/
def editedHome : Workspace :=
  (empty 16).run
    [.createRootFolder ⟨"alice"⟩ 0 sharedHome "Home",
      .put ⟨"alice"⟩ 0 (.new ⟨"note"⟩ sharedHome folderClass .empty),
      .grant ⟨"alice"⟩ 0 ⟨⟨""⟩, sharedHome, ⟨"bob"⟩, false, some "true", some "true"⟩,
      .createRootFolder ⟨"bob"⟩ 0 hut "Hut"]

/-- The note, put by `bob` into his own folder. -/
def takenNote : Call := .put ⟨"bob"⟩ 0 (.new ⟨"note"⟩ hut folderClass .empty)

/-- The folder of `bob`, given to `carol`, and a resource that he puts beside the note. -/
def busyBob : List Call :=
  [.grant ⟨"bob"⟩ 0 (.ownerRule hut ⟨"carol"⟩),
    .put ⟨"bob"⟩ 0 (.new ⟨"draft"⟩ sharedHome folderClass .empty)]

theorem reachable_editedHome : editedHome.Reachable :=
  ReachableBy.run _ (.empty 16) (by decide +kernel)

/-- These calls touch no rule of others, and `bob` owns the note once he has moved it. -/
theorem busy_editedHome :
    (editedHome.store.tables.row? ⟨"note"⟩).isSome ∧
    (editedHome.store.authorize ⟨"bob"⟩ ⟨"note"⟩).answer.toOption.map (·.isOwner) = some false ∧
    ¬editedHome.store.Owns ⟨"bob"⟩ ⟨"note"⟩ ∧
    AllowedAlong (fun w call => w.KeepsToOwn ⟨"bob"⟩ call) editedHome busyBob ∧
    (editedHome.run (busyBob.take 1)).store.tables.row? ⟨"draft"⟩ = none ∧
    AllowedAlong (fun w call => w.KeepsToOwn ⟨"bob"⟩ call) editedHome [takenNote] ∧
    (editedHome.run [takenNote]).store.Owns ⟨"bob"⟩ ⟨"note"⟩ := by
  decide +kernel

theorem not_takes_busyBob :
    AllowedAlong (fun w call => ¬w.Takes ⟨"bob"⟩ ⟨"note"⟩ call) editedHome busyBob := by
  obtain ⟨-, -, -, -, hnew, -⟩ := busy_editedHome
  refine ⟨?_, ?_, trivial⟩
  · rintro ⟨now, x, asked, -⟩
    cases asked
  · rintro ⟨now, x, asked, -, ⟨row, found, -⟩, -⟩
    cases asked
    cases hnew.symm.trans found

/-- So he is no owner of the note after any of these calls; but he takes it when he moves it. -/
theorem takes_takenNote :
    editedHome.Reachable ∧ (editedHome.store.tables.row? ⟨"note"⟩).isSome ∧
      ¬editedHome.store.Owns ⟨"bob"⟩ ⟨"note"⟩ ∧
      AllowedAlong (fun w call => w.KeepsToOwn ⟨"bob"⟩ call) editedHome busyBob ∧
      (∀ done, done <+: busyBob → ¬(editedHome.run done).store.Owns ⟨"bob"⟩ ⟨"note"⟩) ∧
      AllowedAlong (fun w call => w.KeepsToOwn ⟨"bob"⟩ call) editedHome [takenNote] ∧
      editedHome.Takes ⟨"bob"⟩ ⟨"note"⟩ takenNote := by
  obtain ⟨hr, -, hnot, hbusy, -, htaken, howns⟩ := busy_editedHome
  have hquiet := not_owns_run_iff busyBob reachable_editedHome hr hnot hbusy
  have htaking := not_owns_run_iff [takenNote] reachable_editedHome hr hnot htaken
  refine ⟨reachable_editedHome, hr, hnot, hbusy, hquiet.mpr not_takes_busyBob, htaken, ?_⟩
  refine Classical.byContradiction fun h => ?_
  exact htaking.mpr ⟨h, trivial⟩ [takenNote] (List.prefix_refl _) howns

/-- A principal who is no owner may become one by calls of their own. -/
theorem exists_owns_run :
    ¬∀ (w : Workspace) (calls : List Call) (p : Principal) (r : ResourceId), w.Reachable →
      (w.store.tables.row? r).isSome →
        (w.store.authorize p r).answer.toOption.map (·.isOwner) = some false →
          AllowedAlong (fun w call => call.IsFresh w ∧ ∀ q ∈ call.writer?, q = p) w calls →
            ¬(w.run calls).store.Owns p r := by
  intro h
  obtain ⟨hr, hdenied, -, -, -, ⟨htaken, -⟩, howns⟩ := busy_editedHome
  have hmine : AllowedAlong (fun w call => call.IsFresh w ∧ ∀ q ∈ call.writer?, q = ⟨"bob"⟩)
      editedHome [takenNote] := ⟨⟨htaken.fresh, htaken.mine⟩, trivial⟩
  exact h editedHome [takenNote] ⟨"bob"⟩ ⟨"note"⟩ reachable_editedHome hr hdenied hmine howns

end Workspace

end Fieldbook
