import Fieldbook.Keyed

/-!
# Proofs/Keyed — what is found in keyed lists

What stands under a key of a keyed list, and what it is made of: pairs that are put in under keys of
their own are all there (`perm_insert`), and each is found under its key (`find?_eq_some_iff`).
-/

namespace Fieldbook.Keyed

variable {α : Type} {key : String} {v : α}

/-! ## What is found -/

theorem mem_of_find? : ∀ {entries : List (String × α)}, find? key entries = some v →
    (key, v) ∈ entries
  | [], h => nomatch h
  | (k, u) :: rest, h => by
    rw [find?] at h
    split at h
    · next hkey =>
      obtain rfl := Option.some.inj h
      exact hkey ▸ List.mem_cons_self
    · exact List.mem_cons_of_mem _ (mem_of_find? h)

theorem find?_foldl_insert : ∀ {entries acc : List (String × α)},
    (∀ x ∈ entries, x.1 = key → x.2 = v) →
    ((∃ x ∈ entries, x.1 = key) ∨ find? key acc = some v) →
      find? key (entries.foldl (fun acc x => insert x.1 x.2 acc) acc) = some v
  | [], _, _, h => h.resolve_left fun ⟨_, hx, _⟩ => nomatch hx
  | x :: rest, acc, hall, h => by
    obtain ⟨hx, hrest⟩ := List.forall_mem_cons.mp hall
    rw [List.foldl_cons]
    refine find?_foldl_insert hrest ?_
    rw [find?_insert]
    by_cases hkey : x.1 = key
    · exact .inr (by rw [if_pos hkey, hx hkey])
    · rw [if_neg hkey]
      refine h.imp_left fun ⟨y, hy, hyk⟩ => ⟨y, ?_, hyk⟩
      rcases List.mem_cons.mp hy with rfl | hy
      · exact absurd hyk hkey
      · exact hy

/-- A key with one value in a list of pairs is found with that value. -/
theorem find?_ofList {entries : List (String × α)}
    (hall : ∀ x ∈ entries, x.1 = key → x.2 = v) (hmem : ∃ x ∈ entries, x.1 = key) :
    find? key (ofList entries) = some v :=
  find?_foldl_insert hall (.inl hmem)

/-- What is found in a list that is made of pairs, of which no two have one key and two values. -/
theorem find?_ofList_iff {entries : List (String × α)}
    (hone : ∀ x y, x ∈ entries → y ∈ entries → x.1 = y.1 → x.2 = y.2) :
    find? key (ofList entries) = some v ↔ (key, v) ∈ entries := by
  constructor
  · exact fun h => (kept_ofList entries).mem _ (mem_of_find? h)
  · exact fun h => find?_ofList (fun x hx hkey => hone x (key, v) hx h hkey) ⟨_, h, rfl⟩

/-! ## Keys of their own -/

/-- A value under a new key is one more pair. -/
theorem perm_insert : ∀ {entries : List (String × α)}, key ∉ entries.map (·.1) →
    (insert key v entries).Perm ((key, v) :: entries)
  | [], _ => .refl _
  | (k, u) :: rest, h => by
    obtain ⟨(hne : key ≠ k), hrest⟩ := List.ne_and_not_mem_of_not_mem_cons h
    by_cases hlt : key < k
    · rw [insert, if_pos hlt]
    · rw [insert, if_neg hlt, if_neg hne]
      exact ((perm_insert hrest).cons _).trans (.swap _ _ _)

/-- Ascending keys are distinct. -/
theorem Ascending.nodup_keys {entries : List (String × α)} (h : Ascending entries) :
    (entries.map (·.1)).Nodup := by
  refine List.pairwise_map.mpr (List.Pairwise.imp (fun {a b} hlt heq => ?_) h)
  rw [heq] at hlt
  exact String.lt_irrefl _ hlt

/-- Where keys are distinct, a pair is found under its key. -/
theorem find?_eq_some_iff {entries : List (String × α)} (hd : (entries.map (·.1)).Nodup) :
    find? key entries = some v ↔ (key, v) ∈ entries := by
  refine ⟨mem_of_find?, fun hmem => ?_⟩
  induction entries with
  | nil => exact absurd hmem List.not_mem_nil
  | cons e rest ih =>
    obtain ⟨hnew, hrest⟩ := List.nodup_cons.mp hd
    rw [find?]
    rcases List.mem_cons.mp hmem with rfl | hmem
    · exact if_pos rfl
    · rw [if_neg fun hkey => hnew (List.mem_map.mpr ⟨_, hmem, hkey.symm⟩)]
      exact ih hrest hmem

end Fieldbook.Keyed
