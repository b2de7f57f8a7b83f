/-!
# Keyed — lists ordered by a text key

A keyed list holds pairs in ascending order of their keys, each key once. Keys are compared by their
code points, which is also the order of their bytes in UTF-8. `insert` keeps the order
(`ascending_insert`), and `find?` sees what was inserted last (`find?_insert`). Pairs put in one after
another give a keyed list of some of them (`kept_ofList`), of all if their keys ascend
(`ofList_of_ascending`).
-/

namespace Fieldbook.Keyed

variable {α : Type}

/-- The value of a key. -/
def find? (key : String) : List (String × α) → Option α
  | [] => none
  | (k, v) :: rest => if k = key then some v else find? key rest

/-- Puts a value under a key, in place of the value that was there. -/
def insert (key : String) (value : α) : List (String × α) → List (String × α)
  | [] => [(key, value)]
  | (k, v) :: rest =>
    if key < k then (key, value) :: (k, v) :: rest
    else if key = k then (key, value) :: rest
    else (k, v) :: insert key value rest

def erase (key : String) (entries : List (String × α)) : List (String × α) :=
  entries.filter fun e => e.1 != key

/-- The pairs of a list put in one after another. -/
def ofList (entries : List (String × α)) : List (String × α) :=
  entries.foldl (fun acc e => insert e.1 e.2 acc) []

/-- Keys in ascending order, each once. -/
def Ascending (entries : List (String × α)) : Prop := entries.Pairwise fun a b => a.1 < b.1

theorem find?_insert (key other : String) (value : α) :
    ∀ entries : List (String × α),
      find? other (insert key value entries) =
        if key = other then some value else find? other entries
  | [] => by simp [insert, find?]
  | (k, v) :: rest => by
    unfold insert
    split
    · simp [find?]
    · split
      · next h => subst h; simp only [find?]; split <;> simp_all
      · next h => simp only [find?, find?_insert key other value rest]; split <;> simp_all

theorem mem_keys_insert {key x : String} {value : α} :
    ∀ {entries : List (String × α)},
      x ∈ (insert key value entries).map (·.1) ↔ x = key ∨ x ∈ entries.map (·.1)
  | [] => by simp [insert]
  | (k, v) :: rest => by
    have ih : x ∈ (insert key value rest).map (·.1) ↔ x = key ∨ x ∈ rest.map (·.1) :=
      mem_keys_insert
    unfold insert
    split
    · simp
    · split
      · next h => subst h; simp
      · simp only [List.map_cons, List.mem_cons, ih]
        grind

theorem ascending_insert (key : String) (value : α) :
    ∀ {entries : List (String × α)}, Ascending entries → Ascending (insert key value entries)
  | [], _ => by simp [insert, Ascending]
  | (k, v) :: rest, h => by
    have hp := List.pairwise_cons.mp h
    unfold insert
    split
    · next hlt =>
      refine List.pairwise_cons.mpr ⟨fun x hx => ?_, h⟩
      rcases List.mem_cons.mp hx with rfl | hx
      · exact hlt
      · exact String.lt_trans hlt (hp.1 x hx)
    · split
      · next heq => subst heq; exact List.pairwise_cons.mpr ⟨hp.1, hp.2⟩
      · next hlt hne =>
        refine List.pairwise_cons.mpr ⟨fun x hx => ?_, ascending_insert key value hp.2⟩
        rcases mem_keys_insert.mp (List.mem_map_of_mem (f := (·.1)) hx) with e | hm
        · rw [e]
          exact Decidable.byContradiction fun hb =>
            hne (String.le_antisymm (String.not_lt.mp hb) (String.not_lt.mp hlt))
        · obtain ⟨y, hy, e⟩ := List.mem_map.mp hm
          rw [← e]
          exact hp.1 y hy

/-! ## Lists of pairs -/

/-- A key above all others goes to the end. -/
theorem insert_of_forall_lt {key : String} {value : α} :
    ∀ {entries : List (String × α)}, (∀ e ∈ entries, e.1 < key) →
      insert key value entries = entries ++ [(key, value)]
  | [], _ => rfl
  | (k, v) :: rest, h => by
    have hlt : k < key := h (k, v) List.mem_cons_self
    have hne : key ≠ k := fun heq => String.lt_irrefl k (heq ▸ hlt)
    have hrest : insert key value rest = rest ++ [(key, value)] :=
      insert_of_forall_lt fun e he => h e (List.mem_cons_of_mem _ he)
    rw [insert, if_neg (fun hgt => String.lt_irrefl k (String.lt_trans hlt hgt)), if_neg hne, hrest,
      List.cons_append]

theorem foldl_insert_of_ascending : ∀ {entries acc : List (String × α)}, Ascending (acc ++ entries) →
    entries.foldl (fun acc e => insert e.1 e.2 acc) acc = acc ++ entries
  | [], acc, _ => (List.append_nil acc).symm
  | e :: rest, acc, h => by
    have hlt : ∀ a ∈ acc, a.1 < e.1 := fun a ha =>
      (List.pairwise_append.mp h).2.2 a ha e List.mem_cons_self
    have happend : acc ++ e :: rest = acc ++ [e] ++ rest := by simp
    rw [List.foldl_cons, insert_of_forall_lt hlt, happend]
    rw [happend] at h
    exact foldl_insert_of_ascending h

/-- **Pairs in ascending order** stay as they are. -/
theorem ofList_of_ascending {entries : List (String × α)} (h : Ascending entries) :
    ofList entries = entries :=
  foldl_insert_of_ascending h

/-- What is kept of pairs put in one after another: ascending keys, no other pairs and no more. -/
structure Kept (entries kept : List (String × α)) : Prop where
  ascending : Ascending kept
  mem : ∀ e ∈ kept, e ∈ entries
  length_le : kept.length ≤ entries.length

theorem mem_insert {key : String} {value : α} {e : String × α} :
    ∀ {entries : List (String × α)}, e ∈ insert key value entries → e = (key, value) ∨ e ∈ entries
  | [], h => .inl (List.mem_singleton.mp h)
  | (k, v) :: rest, h => by
    unfold insert at h
    split at h
    · exact List.mem_cons.mp h
    · split at h
      · exact (List.mem_cons.mp h).imp_right fun h => List.mem_cons_of_mem _ h
      · rcases List.mem_cons.mp h with rfl | h
        · exact .inr List.mem_cons_self
        · exact (mem_insert h).imp_right fun h => List.mem_cons_of_mem _ h

theorem length_insert_le (key : String) (value : α) :
    ∀ entries : List (String × α), (insert key value entries).length ≤ entries.length + 1
  | [] => Nat.le_refl 1
  | (k, v) :: rest => by
    unfold insert
    split
    · exact Nat.le_refl _
    · split
      · exact Nat.le_succ _
      · exact Nat.succ_le_succ (length_insert_le key value rest)

/-- **A keyed list of pairs** keeps no pair that was not among them. -/
theorem kept_ofList (entries : List (String × α)) : Kept entries (ofList entries) := by
  have hfold : ∀ (later acc sooner : List (String × α)), Kept sooner acc →
      Kept (sooner ++ later) (later.foldl (fun acc e => insert e.1 e.2 acc) acc) := by
    intro later
    induction later with
    | nil =>
      intro acc sooner h
      rwa [List.append_nil]
    | cons e later ih =>
      intro acc sooner h
      have happend : sooner ++ e :: later = sooner ++ [e] ++ later := by simp
      rw [List.foldl_cons, happend]
      refine ih _ _ ⟨ascending_insert e.1 e.2 h.ascending, fun x hx => ?_, ?_⟩
      · rcases mem_insert hx with rfl | hx
        · exact List.mem_append_right _ List.mem_cons_self
        · exact List.mem_append_left _ (h.mem x hx)
      · have hlength := length_insert_le e.1 e.2 acc
        have hle := h.length_le
        rw [List.length_append, List.length_singleton]
        omega
  exact hfold entries [] [] ⟨.nil, fun _ h => h, Nat.le_refl 0⟩

end Fieldbook.Keyed
