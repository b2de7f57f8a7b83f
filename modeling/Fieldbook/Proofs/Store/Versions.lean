import Fieldbook.Proofs.Store.Refusal

/-!
# Proofs/Store/Versions — the versions that a run hands out

A run of a store is a list of operations, and its events pair each with its outcome.  Successful
operations hand out the versions they answer, apart from a commit of a marker that was committed
earlier in the run, which answers an old one.  `gives_after` says that a run hands out one version
after the other, none twice and none left out, and `version_accounting` puts together what a run on
an empty store does with versions, markers and failures.
-/

namespace Fieldbook

/-! ## Events -/

/-- The versions that an answer names. -/
def Store.Receipt.given : Store.Receipt → List Nat
  | .version v => [v]
  | .versions vs => vs
  | .marker _ | .count _ => []

/-- An operation and what came of it. -/
structure Event where
  operation : Store.Operation
  outcome : Except StoreError Store.Receipt

namespace Event

/-- The versions that an event hands out, after the markers `done` were committed. -/
def handsOut (done : List Marker) : Event → List Nat
  | ⟨.commit m, .ok receipt⟩ => if m ∈ done then [] else receipt.given
  | ⟨_, .ok receipt⟩ => receipt.given
  | ⟨_, .error _⟩ => []

/-- The committed markers after an event. -/
def note (done : List Marker) : Event → List Marker
  | ⟨.commit m, .ok _⟩ => m :: done
  | _ => done

end Event

/-- The versions that some events hand out, in the order of the events. -/
def handedOut (done : List Marker) : List Event → List Nat
  | [] => []
  | e :: rest => e.handsOut done ++ handedOut (e.note done) rest

namespace Store

/-- The store after some operations, one after another. -/
def after (s : Store) (ops : List Operation) : Store := ops.foldl (fun s op => (s.perform op).2) s

/-- The operations of a run, each with its outcome. -/
def events (s : Store) : List Operation → List Event
  | [] => []
  | op :: rest => ⟨op, (s.perform op).1⟩ :: (s.perform op).2.events rest

end Store

/-! ## Versions in a row -/

namespace Tables

/-- Between two states of the tables the versions `vs` are given, one after the other. -/
def Gives (t t' : Tables) (vs : List Nat) : Prop :=
  vs = List.range' (t.last.toNat + 1) vs.length ∧ t'.last = t.last + vs.length

namespace Gives

variable {t t₁ t₂ : Tables} {vs ws : List Nat} {v : Nat}

theorem none (h : t₁.last = t.last) : t.Gives t₁ [] := ⟨rfl, by simp [h]⟩

theorem next (hv : (v : Int) = t.last + 1) (hpos : 0 < t.last) (h : t₁.last = v) :
    t.Gives t₁ [v] := by
  refine ⟨?_, by simp [h, hv]⟩
  have : v = t.last.toNat + 1 := by omega
  simp [this]

theorem append (hpos : 0 < t.last) (h : t.Gives t₁ vs) (h' : t₁.Gives t₂ ws) :
    t.Gives t₂ (vs ++ ws) := by
  obtain ⟨hvs, hlast⟩ := h
  obtain ⟨hws, hlast'⟩ := h'
  have hstart : t₁.last.toNat + 1 = t.last.toNat + 1 + vs.length := by omega
  refine ⟨?_, by rw [hlast', hlast, List.length_append]; omega⟩
  rw [List.length_append, ← List.range'_append_1, ← hvs, ← hstart, ← hws]

end Gives

theorem WrittenAll.gives {p : Principal} {now : Int} {rs : List Resource} {vs : List Nat}
    {t t' : Tables} (h : t.WrittenAll p now rs vs t') (hpos : 0 < t.last) : t.Gives t' vs := by
  induction h with
  | nil => exact .none rfl
  | cons next pos rest ih =>
    exact (Gives.next next hpos rfl).append hpos (ih (Int.ofNat_lt.mpr pos))

end Tables

/-! ## One event -/

namespace Store

variable {s s' : Store} {op : Operation} {receipt : Receipt} {done : List Marker}

/-- The markers `done` are those that the tables have a commit of. -/
def Notes (s : Store) (done : List Marker) : Prop :=
  ∀ m, m ∈ done ↔ ∃ v, s.tables.CommittedAt m v

/-- **A successful operation hands out the versions that come next.** -/
theorem Performed.gives (h : Performed s op receipt s') (hs : s.Accounted)
    (hdone : s.Notes done) :
    s.tables.Gives s'.tables (Event.handsOut done ⟨op, .ok receipt⟩) := by
  have hpos := hs.tables.last_pos
  cases h with
  | increment next pos => exact .next next hpos rfl
  | put next pos => exact .next next hpos rfl
  | putBatch all => exact all.gives hpos
  | delete next pos found => exact .next next hpos rfl
  | putPending => exact .none rfl
  | @commitAgain m v before =>
    have hm : m ∈ done := (hdone m).mpr ⟨v, before⟩
    rw [Event.handsOut, if_pos hm]
    exact .none rfl
  | @commit m v c found open_ next pos =>
    have hm : m ∉ done := by
      rw [hdone m]
      rintro ⟨w, d, hd, hw, hwpos⟩
      obtain rfl := Option.some.inj (found.symm.trans hd)
      omega
    rw [Event.handsOut, if_neg hm]
    exact .next next hpos rfl
  | index known => exact .none rfl

theorem Performed.commit_version {m : Marker} (h : Performed s (.commit m) receipt s') :
    ∃ v, receipt = .version v := by
  cases h <;> exact ⟨_, rfl⟩

theorem Performed.notes (h : Performed s op receipt s') (hdone : s.Notes done) :
    s'.Notes (Event.note done ⟨op, .ok receipt⟩) := by
  intro m
  have hiff : ∀ v, s'.tables.CommittedAt m v ↔ _ := fun v => h.committedAt_iff
  simp only [hiff, exists_or]
  cases h with
  | increment | put | putBatch | delete | putPending | index =>
    simp only [Event.note, hdone m]
    simp
  | commitAgain | commit =>
    simp only [Event.note, List.mem_cons, hdone m]
    simp [eq_comm, or_comm]

theorem accounted_perform (hs : s.Accounted) (op : Operation) : (s.perform op).2.Accounted := by
  rcases hrun : s.perform op with ⟨e | receipt, s'⟩
  · obtain ⟨lookups, rfl⟩ := learnAll_of_perform_error hrun
    exact hs.learnAll lookups
  · exact (performed_of_perform hrun).accounted hs

theorem notes_perform (hdone : s.Notes done) (op : Operation) :
    (s.perform op).2.Notes (Event.note done ⟨op, (s.perform op).1⟩) := by
  rcases hrun : s.perform op with ⟨e | receipt, s'⟩
  · have hnote : Event.note done ⟨op, .error e⟩ = done := by cases op <;> rfl
    intro m
    rw [hnote, tables_of_perform_error hrun]
    exact hdone m
  · exact (performed_of_perform hrun).notes hdone

theorem gives_perform (hs : s.Accounted) (hdone : s.Notes done) (op : Operation) :
    s.tables.Gives (s.perform op).2.tables (Event.handsOut done ⟨op, (s.perform op).1⟩) := by
  rcases hrun : s.perform op with ⟨e | receipt, s'⟩
  · have hout : Event.handsOut done ⟨op, .error e⟩ = [] := by cases op <;> rfl
    rw [hout]
    exact .none (congrArg Tables.last (tables_of_perform_error hrun))
  · exact (performed_of_perform hrun).gives hs hdone

/-- What is committed stays committed, at the version it has. -/
theorem committedAt_perform {m : Marker} {v : Nat} (h : s.tables.CommittedAt m v)
    (op : Operation) : (s.perform op).2.tables.CommittedAt m v := by
  rcases hrun : s.perform op with ⟨e | receipt, s'⟩
  · rw [tables_of_perform_error hrun]
    exact h
  · exact (performed_of_perform hrun).committedAt_iff.mpr (.inl h)

/-! ## Runs -/

theorem accounted_after (ops : List Operation) : ∀ {s : Store}, s.Accounted →
    (s.after ops).Accounted := by
  induction ops with
  | nil => exact id
  | cons op rest ih => exact fun hs => ih (accounted_perform hs op)

theorem committedAt_after {m : Marker} {v : Nat} (ops : List Operation) : ∀ {s : Store},
    s.tables.CommittedAt m v → (s.after ops).tables.CommittedAt m v := by
  induction ops with
  | nil => exact id
  | cons op rest ih => exact fun h => ih (committedAt_perform h op)

/-- **A run hands out one version after the other,** from the one that comes next up to the one
that the counter shows in the end. -/
theorem gives_after (ops : List Operation) : ∀ {s : Store} {done : List Marker}, s.Accounted →
    s.Notes done → s.tables.Gives (s.after ops).tables (handedOut done (s.events ops)) := by
  induction ops with
  | nil => exact fun _ _ => .none rfl
  | cons op rest ih =>
    intro s done hs hdone
    refine (gives_perform hs hdone op).append hs.tables.last_pos ?_
    exact ih (accounted_perform hs op) (notes_perform hdone op)

/-- A marker that was committed in a run is committed after it, at the version of then. -/
theorem committedAt_of_mem_events {m : Marker} {receipt : Receipt} (ops : List Operation) :
    ∀ {s : Store}, ⟨.commit m, .ok receipt⟩ ∈ s.events ops →
      ∃ v, receipt = .version v ∧ (s.after ops).tables.CommittedAt m v := by
  induction ops with
  | nil => exact fun h => nomatch h
  | cons op rest ih =>
    intro s h
    rcases List.mem_cons.mp h with heq | h
    · obtain ⟨rfl, hok⟩ := Event.mk.inj heq
      have hdone := performed_of_perform (Prod.ext hok.symm rfl)
      obtain ⟨v, rfl⟩ := hdone.commit_version
      have hat := hdone.committedAt_iff.mpr (.inr ⟨rfl, rfl⟩)
      exact ⟨v, rfl, committedAt_after rest hat⟩
    · exact ih h

/-- **Versions are accounted for in every run on an empty store.**  Those handed out are 2, 3 and
so on up to the current one, each once; a marker that was committed keeps the version it got, and
committing it again changes nothing; a failed operation changes no table, and an operation fails
exactly when it names something that is not there. -/
theorem version_accounting (ops : List Operation) :
    (∃ v, (empty.after ops).tables.currentVersion = .ok v ∧ 0 < v ∧
      handedOut [] (empty.events ops) = List.range' 2 (v - 1)) ∧
    (∀ m receipt, ⟨.commit m, .ok receipt⟩ ∈ empty.events ops →
      (empty.after ops).perform (.commit m) = (.ok receipt, empty.after ops)) ∧
    (∀ op e, ((empty.after ops).perform op).1 = .error e →
      ((empty.after ops).perform op).2.tables = (empty.after ops).tables) ∧
    (∀ op, (∃ e, ((empty.after ops).perform op).1 = .error e) ↔
      op.IsRefused (empty.after ops).tables) := by
  have hs : (empty.after ops).Accounted := accounted_after ops accounted_empty
  have hpos := hs.tables.last_pos
  refine ⟨?_, ?_, ?_, perform_error_iff hs⟩
  · refine ⟨_, Tables.currentVersion_eq hpos, by omega, ?_⟩
    have hnone : empty.Notes [] := by
      refine fun m => ⟨fun h => (nomatch h), ?_⟩
      rintro ⟨_, _, h, _⟩
      cases h
    obtain ⟨heq, hlast⟩ := gives_after ops accounted_empty hnone
    have hone : empty.tables.last = 1 := rfl
    rw [hone] at heq hlast
    have hlen : (handedOut [] (empty.events ops)).length =
        (empty.after ops).tables.last.toNat - 1 := by omega
    rw [hlen] at heq
    exact heq
  · intro m receipt h
    obtain ⟨v, rfl, hv⟩ := committedAt_of_mem_events ops h
    exact perform_commit_of_committedAt hv
  · exact fun op e he => tables_of_perform_error (Prod.ext he rfl)

end Store

end Fieldbook
