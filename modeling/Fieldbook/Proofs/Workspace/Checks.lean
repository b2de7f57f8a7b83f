import Fieldbook.Proofs.Ownership.Governing
import Fieldbook.Workspace.Writing

/-!
# Proofs/Workspace/Checks — what a check that passes has made sure of

One lemma for each check.  A write that `checkWrite` allows is that of an ordinary resource, which
is no rule, and what it touches is live and may be edited (`permits_of_checkWrite`).  So the tables
admit it: its owner climbs to the root, without the resource itself where that is moved
(`checkWrite_ok`).
-/

namespace Fieldbook

namespace Reading

variable {ε ε' α β : Type}

/-- A compound reading answers when its parts do, one after the other. -/
theorem bind_ok {x : Reading ε α} {f : α → Reading ε β} {b : β} :
    (x >>= f).answer = .ok b ↔ ∃ a, x.answer = .ok a ∧ (f a).answer = .ok b := by
  rw [answer_bind]
  cases x.answer with
  | error e => simp [Except.bind]
  | ok a => simp [Except.bind]

theorem mapError_ok {x : Except ε α} {f : ε → ε'} {a : α} :
    x.mapError f = .ok a ↔ x = .ok a := by
  cases x with
  | error e => exact ⟨fun h => (nomatch h), fun h => (nomatch h)⟩
  | ok b =>
    constructor
    · exact fun h => congrArg Except.ok (Except.ok.inj h)
    · exact fun h => congrArg Except.ok (Except.ok.inj h)

end Reading

/-! ## Requirements -/

namespace Store

variable {s : Store} {q : Principal} {id ancestor : ResourceId}

/-- What is found of a resource is read of its row. -/
theorem get?_ok {found : Option Entry} : s.get? id = .ok found ↔
    (s.tables.row? id = none ∧ found = none) ∨
      ∃ row entry, s.tables.row? id = some row ∧ row.read = .ok entry ∧ found = some entry := by
  rw [get?]
  cases s.tables.row? id with
  | none => simp [eq_comm]
  | some row => cases hread : row.read <;> simp [Except.map, hread, eq_comm]

theorem requireLive_ok : s.requireLive id = .ok () ↔ s.isDeleted id = .ok false := by
  rw [requireLive]
  cases s.isDeleted id with
  | error e => simp [bind, Except.bind]
  | ok b => cases b <;> simp [bind, Except.bind, throw, throwThe, MonadExceptOf.throw, pure,
      Except.pure]

/-- **What is live climbs to the root.** -/
theorem climb_of_requireLive (h : s.requireLive id = .ok ()) : ∃ path, s.tables.Climb id path :=
  OwnerChain.climb_of_isDeleted (OwnerChain.isAbove_ownerChain s id) (requireLive_ok.mp h)

theorem climb_of_isWithin (h : s.isWithin id ancestor = .ok false) :
    ∃ path, s.tables.Climb id path ∧ ancestor ∉ path :=
  OwnerChain.climb_of_contains (OwnerChain.isAbove_ownerChain s id) h

theorem require_ok {a : Authorization} {action : Action} {allowed : Bool} :
    a.require action allowed = .ok () ↔ allowed = true := by
  rw [Authorization.require]
  cases allowed <;> simp

/-- An owner is who a walk finds an owner rule for. -/
theorem requireOwner_ok : (s.requireOwner q id).answer = .ok () ↔
    ∃ a, (s.authorize q id).answer = .ok a ∧ a.isOwner = true := by
  rw [requireOwner, Reading.bind_ok]
  exact exists_congr fun a => and_congr_right fun _ => require_ok

theorem requireView_ok : (s.requireView q id).answer = .ok () ↔
    ∃ a, (s.authorize q id).answer = .ok a ∧ a.canView = true := by
  rw [requireView, Reading.bind_ok]
  exact exists_congr fun a => and_congr_right fun _ => require_ok

theorem requireEdit_ok : (s.requireEdit q id).answer = .ok () ↔
    ∃ a, (s.authorize q id).answer = .ok a ∧ a.canEdit = true := by
  rw [requireEdit, Reading.bind_ok]
  exact exists_congr fun a => and_congr_right fun _ => require_ok

/-- At the root nobody has a right. -/
theorem authorize_root : (s.authorize q .root).answer = .ok ⟨q, .root, none⟩ :=
  authorize_ok_iff.mpr ⟨0, none, .root, rfl⟩

theorem ne_root_of_requireEdit (h : (s.requireEdit q id).answer = .ok ()) : id ≠ .root := by
  rintro rfl
  obtain ⟨a, ha, hedit⟩ := requireEdit_ok.mp h
  obtain rfl := Except.ok.inj (ha.symm.trans authorize_root)
  cases hedit

end Store

/-! ## Writes -/

/-- A resource that no rule is stored as. -/
def Resource.IsOrdinary (r : Resource) : Prop :=
  r.classId ≠ AccessRule.classId ∧ AccessRule.isRuleId r.id = false

/-- The ways in which a write of a resource leaves owners that lead to the root. -/
inductive Tables.Admits (t : Tables) (r : Resource) : Prop where
  | new {path : List ResourceId} (new : t.row? r.id = none) (climb : t.Climb r.owner path)
  | kept {row : Row} (found : t.row? r.id = some row) (same : row.owner = r.owner)
  | moved {row : Row} {path : List ResourceId} (found : t.row? r.id = some row)
      (climb : t.Climb r.owner path) (out : r.id ∉ path)

namespace Workspace

variable {w : Workspace} {p : Principal} {r : Resource} {id : ResourceId}

theorem toOption_eq_some {ε α : Type} {x : Except ε α} {a : α} :
    x.toOption = some a ↔ x = .ok a := by
  cases x <;> simp [Except.toOption]

theorem checkOwner_ok (h : (w.checkOwner p id).answer = .ok ()) :
    w.store.requireLive id = .ok () ∧ (w.store.requireEdit p id).answer = .ok () := by
  obtain ⟨_, hlive, hedit⟩ := Reading.bind_ok.mp h
  exact ⟨hlive, hedit⟩

theorem checkMove_ok (h : (w.checkMove p r).answer = .ok ()) :
    w.store.isWithin r.owner r.id = .ok false ∧ (w.checkOwner p r.owner).answer = .ok () := by
  obtain ⟨b, hwithin, h⟩ := Reading.bind_ok.mp h
  cases b with
  | true => cases h
  | false => exact ⟨hwithin, h⟩

/-- The resource is live, and the principal may edit it. -/
structure MayEdit (w : Workspace) (p : Principal) (id : ResourceId) : Prop where
  live : w.store.isDeleted id = .ok false
  edit : ∃ a, (w.store.authorize p id).answer = .ok a ∧ a.canEdit = true

theorem mayEdit_of_requires (live : w.store.requireLive id = .ok ())
    (edit : (w.store.requireEdit p id).answer = .ok ()) : w.MayEdit p id :=
  ⟨Store.requireLive_ok.mp live, Store.requireEdit_ok.mp edit⟩

theorem MayEdit.requireLive (h : w.MayEdit p id) : w.store.requireLive id = .ok () :=
  Store.requireLive_ok.mpr h.live

theorem MayEdit.ne_root (h : w.MayEdit p id) : id ≠ .root :=
  Store.ne_root_of_requireEdit (Store.requireEdit_ok.mpr h.edit)

/-- Why a principal may write a resource, where it is new, keeps its owner, or is moved to another
one. -/
inductive Permits (w : Workspace) (p : Principal) (r : Resource) : Prop where
  | new (new : w.store.tables.row? r.id = none) (owner : w.MayEdit p r.owner)
  | kept {row : Row} {entry : Entry} (found : w.store.tables.row? r.id = some row)
      (read : row.read = .ok entry) (self : w.MayEdit p r.id) (same : row.owner = r.owner)
  | moved {row : Row} {entry : Entry} (found : w.store.tables.row? r.id = some row)
      (read : row.read = .ok entry) (self : w.MayEdit p r.id) (changed : row.owner ≠ r.owner)
      (out : w.store.isWithin r.owner r.id = .ok false) (owner : w.MayEdit p r.owner)

/-- What a write that is allowed has found, where the resource is new, keeps its owner, or is moved
to another one. -/
inductive Writable (w : Workspace) (r : Resource) : Prop where
  | new (new : w.store.tables.row? r.id = none) (owner : w.store.requireLive r.owner = .ok ())
  | kept {row : Row} {entry : Entry} (below : r.id ≠ .root)
      (found : w.store.tables.row? r.id = some row) (read : row.read = .ok entry)
      (live : w.store.requireLive r.id = .ok ()) (same : row.owner = r.owner)
  | moved {row : Row} {entry : Entry} (below : r.id ≠ .root)
      (found : w.store.tables.row? r.id = some row) (read : row.read = .ok entry)
      (live : w.store.requireLive r.id = .ok ())
      (out : w.store.isWithin r.owner r.id = .ok false)
      (owner : w.store.requireLive r.owner = .ok ())

/-- **What `checkWrite` allows** is a write of an ordinary resource, not directly under the root and
valid if it is a form, by a principal who may edit it, if it is there, and its owner, if that is
another one. -/
theorem permits_of_checkWrite (h : (w.checkWrite p r).answer = .ok ()) :
    r.IsOrdinary ∧ r.owner ≠ .root ∧ checkForm r = .ok () ∧ w.Permits p r := by
  rw [checkWrite] at h
  split at h
  · cases h
  · next hord =>
    split at h
    · cases h
    · next hbelow =>
      have hord : r.IsOrdinary := by simpa [Resource.IsOrdinary] using hord
      have hbelow : r.owner ≠ .root := by simpa [ResourceId.isRoot] using hbelow
      obtain ⟨_, hform, h⟩ := Reading.bind_ok.mp h
      refine ⟨hord, hbelow, hform, ?_⟩
      obtain ⟨existing, hget, h⟩ := Reading.bind_ok.mp h
      rcases Store.get?_ok.mp (Reading.mapError_ok.mp hget) with
        ⟨hrow, rfl⟩ | ⟨row, entry, hrow, hread, rfl⟩
      · obtain ⟨hlive, hedit⟩ := checkOwner_ok h
        exact .new hrow (mayEdit_of_requires hlive hedit)
      · obtain ⟨_, hlive, h⟩ := Reading.bind_ok.mp h
        obtain ⟨_, hedit, h⟩ := Reading.bind_ok.mp h
        have hself := mayEdit_of_requires hlive hedit
        by_cases hsame : row.owner = r.owner
        · exact .kept hrow hread hself hsame
        · rw [Row.owner_of_read hread, if_pos hsame] at h
          obtain ⟨hwithin, howner⟩ := checkMove_ok h
          obtain ⟨hlive', hedit'⟩ := checkOwner_ok howner
          exact .moved hrow hread hself hsame hwithin (mayEdit_of_requires hlive' hedit')

theorem Permits.writable (h : w.Permits p r) : w.Writable r := by
  cases h with
  | new new owner => exact .new new owner.requireLive
  | kept found read self same => exact .kept self.ne_root found read self.requireLive same
  | moved found read self _ out owner =>
    exact .moved self.ne_root found read self.requireLive out owner.requireLive

theorem writable_of_checkWrite (h : (w.checkWrite p r).answer = .ok ()) :
    r.IsOrdinary ∧ w.Writable r := by
  obtain ⟨hord, -, -, hpermits⟩ := permits_of_checkWrite h
  exact ⟨hord, hpermits.writable⟩

theorem Writable.admits (h : w.Writable r) : w.store.tables.Admits r := by
  cases h with
  | new new owner =>
    obtain ⟨path, hclimb⟩ := Store.climb_of_requireLive owner
    exact .new new hclimb
  | kept _ found _ _ same => exact .kept found same
  | moved _ found _ _ out _ =>
    obtain ⟨path, hclimb, hout⟩ := Store.climb_of_isWithin out
    exact .moved found hclimb hout

/-- So the tables admit it. -/
theorem checkWrite_ok (h : (w.checkWrite p r).answer = .ok ()) :
    r.IsOrdinary ∧ w.store.tables.Admits r :=
  (writable_of_checkWrite h).imp_right Writable.admits

/-- **What `checkDelete` allows** has a row, and the principal may edit it. -/
theorem checkDelete_ok (h : (w.checkDelete p id).answer = .ok ()) :
    (w.store.tables.row? id).isSome ∧ w.store.requireLive id = .ok () ∧
      (w.store.requireEdit p id).answer = .ok () := by
  obtain ⟨existing, hget, h⟩ := Reading.bind_ok.mp h
  rcases Store.get?_ok.mp (Reading.mapError_ok.mp hget) with
    ⟨-, rfl⟩ | ⟨row, entry, hrow, -, rfl⟩
  · cases h
  · obtain ⟨_, hlive, hedit⟩ := Reading.bind_ok.mp h
    exact ⟨by rw [hrow]; rfl, hlive, hedit⟩

end Workspace

end Fieldbook
