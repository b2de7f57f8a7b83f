import Fieldbook.Proofs.Store.Accounted
import Fieldbook.Workspace.Call

/-!
# Proofs/Workspace/Requests — all that a call can do

A call that writes is a request: a check, and an operation of the store that is done if the check
allows it (`request?`).  `perform_request` says this of every such call at once, so that a later
proof about writes is about the operations and their checks.  A commit is an operation and an
indexing without a check, and every other call is a reading, which writes nothing
(`happened_of_perform`).
-/

namespace Fieldbook.Workspace

open Store (Operation Receipt Performed)

/-- A write that is asked for, and the check that has to allow it. -/
structure Request where
  check : Reading WorkspaceError Unit
  operation : Operation

/-- What a call asks to write, if it is a write that is checked. -/
def request? (w : Workspace) : Call → Option Request
  | .createRootFolder owner now id label =>
    some ⟨pure (), .putBatch owner now
      [rootFolder id label, (AccessRule.ownerRule id owner).toResource]⟩
  | .put principal now r => some ⟨w.checkWrite principal r, .put principal now r⟩
  | .putForm principal now form =>
    some ⟨w.checkWrite principal form.toResource, .put principal now form.toResource⟩
  | .putPending principal now marker r =>
    some ⟨w.checkWrite principal r, .putPending principal now marker r⟩
  | .delete principal id => some ⟨w.checkDelete principal id, .delete principal id⟩
  | .grant principal now rule =>
    some ⟨w.store.requireOwner principal rule.resource, .put principal now
      ({ rule with id := AccessRule.idFor rule.resource rule.principal } : AccessRule).toResource⟩
  | .revoke principal id grantee =>
    some ⟨w.store.requireOwner principal id, .delete principal (AccessRule.idFor id grantee)⟩
  | .currentVersion | .commitPending _ | .get .. | .getForm .. | .children .. | .rules ..
  | .authorize .. | .isDeleted _ | .requireLive _ | .snapshots .. | .formTree .. | .query _ => none

variable {w : Workspace} {call : Call} {request : Request}

/-! ## Guarded transactions -/

/-- What becomes of a request, where only the answer differs between calls. -/
inductive Answered (w : Workspace) (request : Request) {α : Type} :
    Except WorkspaceError α → Store → Prop where
  | refused {e : WorkspaceError} {lookups : List Lookup} :
      Answered w request (.error e) (w.store.learnAll lookups)
  | done {a : α} {receipt : Receipt} {lookups : List Lookup} {s' : Store}
      (allowed : request.check.answer = .ok ())
      (performed : (w.store.learnAll lookups).Performed request.operation receipt s') :
      Answered w request (.ok a) s'

/-- **A guarded transaction is done if its check allows it,** and otherwise nothing is written. -/
theorem answered_guarded {α : Type} {check : Reading WorkspaceError Unit} {t : Transaction α}
    {op : Operation}
    (hop : ∀ {s s' : Store} {a : α}, s.transact t = (.ok a, s') →
      ∃ receipt, s.Performed op receipt s') :
    w.Answered ⟨check, op⟩ (w.guarded check t).1 (w.guarded check t).2.store := by
  rw [guarded, read, Store.run]
  cases hcheck : check.answer with
  | error e => exact .refused
  | ok u =>
    rcases htransact : (w.store.learnAll check.lookups).transact t with ⟨e | a, s'⟩
    · obtain rfl := Store.transact_error htransact
      simp only [htransact]
      exact .refused
    · obtain ⟨receipt, hdone⟩ := hop htransact
      simp only [htransact]
      exact .done hcheck hdone

theorem Answered.answering {α : Type} {f : α → Answer} {x : Except WorkspaceError α × Workspace}
    (h : w.Answered request x.1 x.2.store) :
    w.Answered request (answering f x).1 (answering f x).2.store := by
  obtain ⟨outcome, store, depth⟩ := x
  dsimp only at h
  cases h with
  | refused => exact .refused
  | done allowed performed => exact .done allowed performed

/-! ## Requests -/

section Transactions

variable {s s' : Store} {p : Principal} {now : Int}

/-- An operation that is one transaction is performed when the transaction goes through. -/
theorem performed_of_transact {α : Type} {t : Transaction α} {op : Operation} {f : α → Receipt}
    {a : α} (hop : s.perform op = Store.mapAnswer f (s.transact t))
    (h : s.transact t = (.ok a, s')) : ∃ receipt, s.Performed op receipt s' := by
  refine ⟨f a, Store.performed_of_perform ?_⟩
  rw [hop, h]
  rfl

theorem performed_putBatch {rs : List Resource} {id a : ResourceId}
    (h : s.transact (do let _ ← Transaction.putBatch p now rs; pure id) = (.ok a, s')) :
    ∃ receipt, s.Performed (.putBatch p now rs) receipt s' := by
  obtain ⟨t, hok, rfl⟩ := Store.transact_ok h
  obtain ⟨vs, t₁, hput, hpure⟩ := Transaction.bind_ok.mp hok
  obtain ⟨-, rfl⟩ := Transaction.pure_ok.mp hpure
  exact ⟨.versions vs, .putBatch (Tables.writtenAll_of_putBatch hput)⟩

end Transactions

/-- **A call that asks to write is refused, or does what it asks for.** -/
theorem perform_request (h : w.request? call = some request) :
    w.Answered request (w.perform call).1 (w.perform call).2.store := by
  cases call with
  | createRootFolder owner now id label =>
    obtain rfl := Option.some.inj h
    exact (answered_guarded performed_putBatch).answering
  | put p now r =>
    obtain rfl := Option.some.inj h
    exact (answered_guarded (performed_of_transact rfl)).answering
  | putForm p now form =>
    obtain rfl := Option.some.inj h
    exact (answered_guarded (performed_of_transact rfl)).answering
  | putPending p now m r =>
    obtain rfl := Option.some.inj h
    exact (answered_guarded (performed_of_transact rfl)).answering
  | delete p id =>
    obtain rfl := Option.some.inj h
    exact (answered_guarded (performed_of_transact rfl)).answering
  | grant p now rule =>
    obtain rfl := Option.some.inj h
    exact (answered_guarded (performed_of_transact rfl)).answering
  | revoke p id grantee =>
    obtain rfl := Option.some.inj h
    exact (answered_guarded (performed_of_transact rfl)).answering
  | _ => cases h

/-! ## Every call -/

/-- All that a call can do to the store of a workspace. -/
inductive Happened (w : Workspace) (call : Call) (s' : Store) : Prop where
  /-- The connection learns, and nothing is written. -/
  | learned {lookups : List Lookup} (learned : s' = w.store.learnAll lookups)
  /-- The call asks for a write that is allowed, and it is done. -/
  | wrote {request : Request} {receipt : Receipt} {lookups : List Lookup}
      (asked : w.request? call = some request) (allowed : request.check.answer = .ok ())
      (performed : (w.store.learnAll lookups).Performed request.operation receipt s')
  /-- A marker is committed, and then indexed if it can be. -/
  | committed {m : Marker} {v : Nat} {s₁ : Store} (asked : call = .commitPending m)
      (commit : w.store.Performed (.commit m) (.version v) s₁)
      (index : (∃ n, s₁.Performed (.index m) (.count n) s') ∨ s' = s₁.learnAll [.commit m])

theorem happened_of_commitPending (w : Workspace) (m : Marker) :
    w.Happened (.commitPending m) (w.perform (.commitPending m)).2.store := by
  change w.Happened _ (answering Answer.version (w.commitPending m)).2.store
  rw [commitPending]
  rcases hcommit : w.store.commit m with ⟨e | v, s₁⟩
  · obtain rfl := Store.commit_error hcommit
    dsimp only
    exact .learned (show w.store = w.store.learnAll [] from rfl)
  · dsimp only
    have hdone := Store.performed_of_commit hcommit
    rcases hindex : s₁.index m with ⟨e | n, s₂⟩
    · exact .committed rfl hdone (.inr (Store.index_error hindex))
    · have hcount := Store.performed_of_index hindex
      exact .committed rfl hdone (.inl ⟨n, hcount⟩)

/-- **There is nothing else that a call can do.** -/
theorem happened_of_perform (w : Workspace) (call : Call) :
    w.Happened call (w.perform call).2.store := by
  cases hrequest : w.request? call with
  | some request =>
    generalize hs : (w.perform call).2.store = s'
    have h := perform_request hrequest
    rw [hs] at h
    generalize (w.perform call).1 = outcome at h
    cases h with
    | refused => exact .learned rfl
    | done allowed performed => exact .wrote hrequest allowed performed
  | none =>
    cases call with
    | commitPending m => exact happened_of_commitPending w m
    | createRootFolder | put | putForm | putPending | delete | grant | revoke => cases hrequest
    | _ => exact .learned rfl

/-- A store stays accounted for through every call. -/
theorem accounted_perform (h : w.store.Accounted) (call : Call) :
    (w.perform call).2.store.Accounted := by
  cases happened_of_perform w call with
  | learned heq => exact heq ▸ h.learnAll _
  | wrote _ _ performed => exact performed.accounted (h.learnAll _)
  | committed _ commit index =>
    rcases index with ⟨n, hindex⟩ | heq
    · exact hindex.accounted (commit.accounted h)
    · exact heq ▸ (commit.accounted h).learnAll _

end Fieldbook.Workspace
