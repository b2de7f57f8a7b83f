import Fieldbook.Proofs.Store.Rows

/-!
# Proofs/Store/Transactions — what each transaction does to the tables

One lemma for each transaction says what the tables are after it, if it succeeds
(`put_ok`, `delete_ok`, `putPending_ok`, `commit_ok`, `index_eq`).  Everything that is known of
runs of a store follows from these; no later proof opens a transaction.
-/

namespace Fieldbook

namespace Tables

/-- The last version given out; one before the first. -/
def last (t : Tables) : Int := t.counter.getD 1

theorem currentVersion_eq {t : Tables} (h : 0 < t.last) :
    t.currentVersion = .ok t.last.toNat := by
  unfold currentVersion last at *
  cases hc : t.counter with
  | none => rfl
  | some v =>
    have hv : 0 < v := by simpa [hc] using h
    simp [hv]

/-! ## Finding a row -/

section Rows

variable {t t' : Tables} {r : Resource} {stamp : Stamp} {principal : Principal} {now : Int}
  {edit : Row → Row}

/-- What is found after a write. -/
theorem row?_of_write (hrows : t'.rows = Row.write r stamp principal now t.rows) (id : ResourceId) :
    t'.row? id = if id = r.id then some (Row.afterWrite r stamp principal now (t.row? r.id))
      else t.row? id := by
  rw [row?, hrows]
  exact Row.find?_write id t.rows

/-- What is found after an edit. -/
theorem row?_of_edit (hrows : t'.rows = t.rows.map edit) (hedit : Row.Keeps edit)
    (id : ResourceId) : t'.row? id = (t.row? id).map edit := by
  rw [row?, hrows]
  exact hedit.find?_map t.rows id

end Rows

/-! ## Successful transactions -/

/-- The tables after a resource is written at the version `v`. -/
def written (t : Tables) (r : Resource) (v : Nat) (principal : Principal) (now : Int) : Tables where
  rows := Row.write r (.committed v) principal now t.rows
  counter := some v
  commits := t.commits
  snapshots := t.snapshots ++ [⟨r.id, v, principal⟩]

/-- The tables after the row of a resource is marked as deleted at the version `v`. -/
def marked (t : Tables) (id : ResourceId) (v : Nat) (principal : Principal) : Tables where
  rows := t.rows.map (Row.mark id v)
  counter := some v
  commits := t.commits
  snapshots := t.snapshots ++ [⟨id, v, principal⟩]

/-- The tables after a write that waits for `marker`. -/
def pended (t : Tables) (r : Resource) (marker : Marker) (principal : Principal) (now : Int) :
    Tables where
  rows := Row.write r (.pending marker) principal now t.rows
  counter := t.counter
  commits := t.commits ++ [⟨marker, 0, principal⟩]
  snapshots := t.snapshots

/-- The rows that wait for a marker. -/
def waiting (t : Tables) (marker : Marker) : List Row := t.rows.filter (·.stamp = .pending marker)

/-- The tables after `marker` is committed at the version `v`. -/
def committed (t : Tables) (marker : Marker) (v : Nat) (principal : Principal) : Tables where
  rows := t.rows
  counter := some v
  commits := t.commits.map fun c => if c.marker = marker then { c with version := v } else c
  snapshots := t.snapshots ++ (t.waiting marker).map fun row => ⟨row.id, v, principal⟩

/-- The tables after the rows that wait for `marker` are given the version `v`. -/
def indexed (t : Tables) (marker : Marker) (v : Nat) : Tables :=
  { t with rows := t.rows.map (Row.restamp marker v) }

end Tables

namespace Transaction

variable {α β : Type} {t t' : Tables} {p : Principal} {now : Int} {r : Resource}

/-- **A compound transaction succeeds when its parts do, one after the other.** -/
theorem bind_ok {x : Transaction α} {f : α → Transaction β} {b : β} :
    (x >>= f) t = .ok (b, t') ↔ ∃ a t₁, x t = .ok (a, t₁) ∧ f a t₁ = .ok (b, t') := by
  change (x t >>= fun y => f y.1 y.2) = _ ↔ _
  cases x t with
  | error e => simp [bind, Except.bind]
  | ok y =>
    obtain ⟨a, t₁⟩ := y
    constructor
    · exact fun h => ⟨a, t₁, rfl, h⟩
    · rintro ⟨_, _, h, hf⟩
      cases h
      exact hf

theorem pure_ok {a b : α} : (pure a : Transaction α) t = .ok (b, t') ↔ a = b ∧ t = t' := by
  change Except.ok (a, t) = _ ↔ _
  simp

theorem modify_ok {g : Tables → Tables} {u : Unit} :
    (modify g : Transaction Unit) t = .ok (u, t') ↔ g t = t' := by
  change Except.ok ((), g t) = _ ↔ _
  simp

theorem get_ok {t₁ : Tables} : (get : Transaction Tables) t = .ok (t₁, t') ↔ t = t₁ ∧ t = t' := by
  change Except.ok (t, t) = _ ↔ _
  simp

theorem throw_ok {e : StoreError} {a : α} : ¬(throw e : Transaction α) t = .ok (a, t') := by
  change ¬Except.error e = _
  simp

theorem nextVersion_ok {v : Nat} (h : nextVersion t = .ok (v, t')) :
    (v : Int) = t.last + 1 ∧ 0 < v ∧ t' = { t with counter := some v } := by
  unfold nextVersion at h
  dsimp only at h
  split at h
  · next hpos =>
    cases h
    have hv : (((t.counter.getD 1 + 1).toNat : Nat) : Int) = t.counter.getD 1 + 1 :=
      Int.toNat_of_nonneg (Int.le_of_lt hpos)
    exact ⟨hv, by omega, by rw [hv]⟩
  · cases h

theorem addSnapshot_ok {id : ResourceId} {v : Nat} {u : Unit}
    (h : addSnapshot id v p t = .ok (u, t')) :
    t' = { t with snapshots := t.snapshots ++ [⟨id, v, p⟩] } := by
  rw [addSnapshot] at h
  split at h
  · cases h
  · cases h
    rfl

/-- **A write** stands in the rows at the next version, which its snapshot records. -/
theorem put_ok {v : Nat} (h : put p now r t = .ok (v, t')) :
    (v : Int) = t.last + 1 ∧ 0 < v ∧ t' = t.written r v p now := by
  obtain ⟨v₁, t₁, hnext, h⟩ := bind_ok.mp h
  obtain ⟨_, t₂, hwrite, h⟩ := bind_ok.mp h
  obtain ⟨_, t₃, hadd, h⟩ := bind_ok.mp h
  obtain ⟨rfl, rfl⟩ := pure_ok.mp h
  obtain ⟨hv, hpos, rfl⟩ := nextVersion_ok hnext
  obtain rfl := modify_ok.mp hwrite
  exact ⟨hv, hpos, addSnapshot_ok hadd⟩

theorem putBatch_nil {vs : List Nat} : putBatch p now [] t = .ok (vs, t') ↔ vs = [] ∧ t' = t := by
  change Except.ok ([], t) = _ ↔ _
  simp [eq_comm]

/-- A batch writes its first resource and then the others. -/
theorem putBatch_cons {rs : List Resource} {vs : List Nat} :
    putBatch p now (r :: rs) t = .ok (vs, t') ↔
      ∃ v t₁ vs', put p now r t = .ok (v, t₁) ∧ putBatch p now rs t₁ = .ok (vs', t') ∧
        vs = v :: vs' := by
  rw [putBatch, List.mapM_cons, bind_ok]
  refine exists_congr fun v => exists_congr fun t₁ => ?_
  rw [bind_ok]
  constructor
  · rintro ⟨hput, vs', t₂, hrest, h⟩
    obtain ⟨rfl, rfl⟩ := pure_ok.mp h
    exact ⟨vs', hput, hrest, rfl⟩
  · rintro ⟨vs', hput, hrest, rfl⟩
    exact ⟨hput, vs', t', hrest, pure_ok.mpr ⟨rfl, rfl⟩⟩

theorem editRows_mark (t : Tables) (id : ResourceId) (v : Nat) :
    (t.editRows (·.id = id) fun row => { row with deleted := true, stamp := .committed v }) =
      { t with rows := t.rows.map (Row.mark id v) } := by
  refine congrArg (fun edit => { t with rows := t.rows.map edit }) (funext fun row => ?_)
  simp [Row.mark]

theorem editRows_restamp (t : Tables) (marker : Marker) (v : Nat) :
    (t.editRows (·.stamp = .pending marker) fun row => { row with stamp := .committed v }) =
      t.indexed marker v := by
  refine congrArg (fun edit => { t with rows := t.rows.map edit }) (funext fun row => ?_)
  simp [Row.restamp]

/-- **A deletion** marks a row that is there, at the next version. -/
theorem delete_ok {id : ResourceId} {v : Nat} (h : delete p id t = .ok (v, t')) :
    (v : Int) = t.last + 1 ∧ 0 < v ∧ (t.row? id).isSome ∧ t' = t.marked id v p := by
  obtain ⟨v₁, t₁, hnext, h⟩ := bind_ok.mp h
  obtain ⟨t₂, t₃, hget, h⟩ := bind_ok.mp h
  obtain ⟨rfl, rfl⟩ := get_ok.mp hget
  obtain ⟨hv, hpos, rfl⟩ := nextVersion_ok hnext
  cases hrow : t.row? id with
  | none =>
    have hnone : ({ t with counter := some (v₁ : Int) } : Tables).row? id = none := hrow
    simp only [hnone, Option.isNone_none, if_true] at h
    obtain ⟨_, _, hthrow, _⟩ := bind_ok.mp h
    exact absurd hthrow throw_ok
  | some row =>
    have hsome : ({ t with counter := some (v₁ : Int) } : Tables).row? id = some row := hrow
    simp only [hsome, Option.isNone_some, Bool.false_eq_true, if_false] at h
    obtain ⟨_, t₂, hedit, h⟩ := bind_ok.mp h
    obtain ⟨_, t₃, hadd, h⟩ := bind_ok.mp h
    obtain ⟨rfl, rfl⟩ := pure_ok.mp h
    obtain rfl := modify_ok.mp hedit
    refine ⟨hv, hpos, rfl, (addSnapshot_ok hadd).trans ?_⟩
    rw [editRows_mark]
    rfl

/-- **A pending write** takes no version. -/
theorem putPending_ok {marker m : Marker} (h : putPending p now marker r t = .ok (m, t')) :
    m = marker ∧ t' = t.pended r marker p now := by
  obtain ⟨_, t₁, hcommit, h⟩ := bind_ok.mp h
  obtain ⟨_, t₂, hwrite, h⟩ := bind_ok.mp h
  obtain ⟨rfl, rfl⟩ := pure_ok.mp h
  obtain rfl := modify_ok.mp hcommit
  exact ⟨rfl, (modify_ok.mp hwrite).symm⟩

theorem forM_addSnapshot_ok {v : Nat} {u : Unit} : ∀ {rows : List Row} {t : Tables},
    (rows.forM fun row => addSnapshot row.id v p) t = .ok (u, t') →
      t' = { t with snapshots := t.snapshots ++ rows.map fun row => ⟨row.id, v, p⟩ }
  | [], t, h => by
    obtain ⟨-, rfl⟩ := pure_ok.mp h
    simp
  | row :: rows, t, h => by
    obtain ⟨_, t₁, hadd, h⟩ := bind_ok.mp h
    obtain rfl := addSnapshot_ok hadd
    rw [forM_addSnapshot_ok h]
    simp

/-- **A commit** finds the version that the marker has, or gives it the next one; then every row
that waits for the marker has a snapshot at it. -/
theorem commit_ok {marker : Marker} {v : Nat} {isNew : Bool}
    (h : commit marker t = .ok ((v, isNew), t')) :
    ∃ c, t.commit? marker = some c ∧
      ((0 < c.version ∧ v = c.version.toNat ∧ isNew = false ∧ t' = t) ∨
        (c.version ≤ 0 ∧ (v : Int) = t.last + 1 ∧ 0 < v ∧ isNew = true ∧
          t' = t.committed marker v c.principal)) := by
  obtain ⟨t₁, t₂, hget, h⟩ := bind_ok.mp h
  obtain ⟨rfl, rfl⟩ := get_ok.mp hget
  cases hc : t.commit? marker with
  | none =>
    simp only [hc] at h
    exact absurd h throw_ok
  | some c =>
    simp only [hc] at h
    refine ⟨c, rfl, ?_⟩
    split at h
    · next hpos =>
      obtain ⟨hv, rfl⟩ := pure_ok.mp h
      obtain ⟨rfl, rfl⟩ := Prod.mk.inj hv
      exact .inl ⟨hpos, rfl, rfl, rfl⟩
    · next hpos =>
      obtain ⟨v₁, t₁, hnext, h⟩ := bind_ok.mp h
      obtain ⟨_, t₂, hcommits, h⟩ := bind_ok.mp h
      obtain ⟨t₃, t₄, hget, h⟩ := bind_ok.mp h
      obtain ⟨_, t₅, hforM, h⟩ := bind_ok.mp h
      obtain ⟨hv, rfl⟩ := pure_ok.mp h
      obtain ⟨rfl, rfl⟩ := Prod.mk.inj hv
      obtain ⟨hv, hlt, rfl⟩ := nextVersion_ok hnext
      obtain rfl := modify_ok.mp hcommits
      obtain ⟨rfl, rfl⟩ := get_ok.mp hget
      exact .inr ⟨Int.not_lt.mp hpos, hv, hlt, rfl, forM_addSnapshot_ok hforM⟩

/-- **Indexing** always succeeds and counts the rows that waited. -/
theorem index_eq (marker : Marker) (v : Nat) (t : Tables) :
    index marker v t = .ok ((t.waiting marker).length, t.indexed marker v) := by
  change Except.ok ((t.waiting marker).length, t.editRows (·.stamp = .pending marker) _) = _
  rw [editRows_restamp]

end Transaction

end Fieldbook
