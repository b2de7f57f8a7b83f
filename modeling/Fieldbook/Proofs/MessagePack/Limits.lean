import Fieldbook.Proofs.MessagePack.Pieces

/-!
# Proofs/MessagePack/Limits — what readers can give

No reader gives a text or a row that its bytes cannot have counted: every count comes from a head,
and a head has four bytes for it.  What holds of all that some readers give (`Gives`) is carried from
one reader to the one that follows, so that nothing need be known of the bytes.
-/

namespace Fieldbook.MessagePack

/-- Whatever the reader gives has the property. -/
def Gives {α : Type} (r : Reader α) (P : α → Prop) : Prop :=
  ∀ bytes a rest, r bytes = some (a, rest) → P a

variable {α β : Type} {r : Reader α} {f : α → Reader β} {P : α → Prop} {Q : β → Prop} {a : α}
  {width n depth : Nat}

theorem gives_pure (h : P a) : Gives (pure a) P := by
  rintro _ _ _ ⟨⟩
  exact h

theorem gives_failure : Gives failure P := fun _ _ _ h => nomatch h

/-- **Readers that follow each other.** -/
theorem Gives.bind (hr : Gives r P) (hf : ∀ a, P a → Gives (f a) Q) : Gives (r >>= f) Q := by
  intro bytes b rest h
  obtain ⟨⟨a, between⟩, hfirst, hsecond⟩ := Option.bind_eq_some_iff.mp h
  exact hf a (hr bytes a between hfirst) between b rest hsecond

theorem Gives.map {g : α → β} (hr : Gives r P) (hg : ∀ a, P a → Q (g a)) :
    Gives (do return g (← r)) Q :=
  hr.bind fun a ha => gives_pure (hg a ha)

theorem gives_any (r : Reader α) : Gives r fun _ => True := fun _ _ _ _ => trivial

/-! ## Heads -/

theorem gives_take (n : Nat) : Gives (take n) fun bytes => bytes.length = n := by
  intro bytes taken rest h
  rw [take] at h
  split at h
  · next hle =>
    cases h
    rw [List.length_take, Nat.min_eq_left hle]
  · cases h

theorem foldl_lt (bytes : List UInt8) (start : Nat) :
    bytes.foldl (fun n b => 256 * n + b.toNat) start < (start + 1) * Nat.pow 256 bytes.length := by
  induction bytes generalizing start with
  | nil => simp
  | cons b bytes ih =>
    have hbyte : b.toNat < 256 := b.toNat_lt
    have hpow : Nat.pow 256 (bytes.length + 1) = 256 * Nat.pow 256 bytes.length := Nat.pow_succ'
    rw [List.foldl_cons, List.length_cons, hpow, ← Nat.mul_assoc]
    exact Nat.lt_of_lt_of_le (ih _) (Nat.mul_le_mul_right _ (by omega))

theorem gives_number (width : Nat) : Gives (number width) (· < Nat.pow 256 width) :=
  (gives_take width).map fun bytes h => by
    have hlt := foldl_lt bytes 0
    rwa [h, Nat.one_mul] at hlt

/-- A head that counts no more than four bytes can. -/
def Head.Fits : Head → Prop
  | .text n | .binary n | .array n | .map n => CountFits n
  | _ => True

theorem gives_headOf {b : Nat} (hb : b < 256) : Gives (headOf b) Head.Fits := by
  have hbyte : ∀ {n : Nat}, n ≤ b → CountFits n := fun h =>
    Nat.lt_of_le_of_lt h (Nat.lt_trans hb (by decide))
  have hcount : ∀ {width n : Nat}, n < Nat.pow 256 width → width ≤ 4 → CountFits n :=
    fun hn hwidth => Nat.lt_of_lt_of_le hn (Nat.pow_le_pow_right (by decide) hwidth)
  -- Each byte stands for a value, for a count below it, or for a count in the bytes after it.
  unfold headOf
  repeat' split
  all_goals
    first
    | exact gives_failure
    | exact gives_pure trivial
    | exact gives_pure (hbyte (Nat.sub_le _ _))
    | exact (gives_number _).map fun _ _ => trivial
    | exact (gives_number _).map fun _ hn => hcount hn (by decide)

/-- **No head counts more than four bytes can.** -/
theorem gives_head : Gives head Head.Fits
  | [], _, _, h => nomatch h
  | b :: bytes, k, rest, h => gives_headOf b.toNat_lt bytes k rest h

/-! ## Texts -/

theorem utf8_of_ofUtf8? {bytes : List UInt8} {s : String} (h : Text.ofUtf8? bytes = some s) :
    Text.utf8 s = bytes := by
  rw [Text.ofUtf8?, String.fromUTF8?] at h
  split at h
  · cases h
    rfl
  · cases h

theorem gives_utf8 (h : CountFits n) : Gives (utf8 n) TextFits := by
  refine (gives_take n).bind fun bytes hlength => ?_
  split
  · next s hs =>
    refine gives_pure ?_
    rw [TextFits, utf8_of_ofUtf8? hs, hlength]
    exact h
  · exact gives_failure

/-- **Every text that is read fits.** -/
theorem gives_text : Gives readText TextFits := by
  refine gives_head.bind fun k hk => ?_
  cases k with
  | text n => exact gives_utf8 hk
  | binary n => exact gives_utf8 hk
  | _ => exact gives_failure

theorem gives_text? : Gives readText? fun s => ∀ t ∈ s, TextFits t := by
  intro bytes s rest h
  rw [readText?.eq_def] at h
  split at h
  · cases h
    exact fun t ht => absurd ht (Option.not_mem_none t)
  · have hread : Gives (do return some (← readText)) fun s => ∀ t ∈ s, TextFits t :=
      gives_text.map fun t ht u hu => Option.some.inj hu ▸ ht
    exact hread _ s rest h

/-! ## Rows -/

theorem gives_many {item : Reader α} (h : Gives item P) :
    ∀ n, Gives (many n item) fun as => as.length = n ∧ ∀ a ∈ as, P a
  | 0 => gives_pure ⟨rfl, fun _ ha => absurd ha List.not_mem_nil⟩
  | n + 1 => h.bind fun _ ha => (gives_many h n).map fun _ has =>
      ⟨congrArg Nat.succ has.1, List.forall_mem_cons.mpr ⟨ha, has.2⟩⟩

/-- **Every row that is read fits.** -/
theorem gives_array {item : Reader α} (h : Gives item P) :
    Gives (readArray depth item) fun as => CountFits as.length ∧ ∀ a ∈ as, P a := by
  refine gives_head.bind fun k hk => ?_
  split
  · next n =>
    intro bytes as rest has
    obtain ⟨hlength, hall⟩ := gives_many h n bytes as rest has
    exact ⟨hlength ▸ hk, hall⟩
  · exact gives_pure ⟨hk, fun _ ha => absurd ha List.not_mem_nil⟩
  · exact gives_failure

/-! ## Pairs -/

/-- What holds of a part, however it is given. -/
structure PairPart.Gives (part : PairPart α) (P : α → Prop) : Prop where
  read : MessagePack.Gives part.read P
  ofByte : ∀ byte, ∀ a ∈ part.ofByte? byte, P a

theorem PairPart.gives_named {name : String} (h : MessagePack.Gives r P) :
    (PairPart.named name r).Gives P :=
  ⟨h, fun _ a ha => absurd ha (Option.not_mem_none a)⟩

variable {first : PairPart α} {second : PairPart β} {missing : Option β}

theorem gives_namedParts (hfirst : first.Gives P) (hsecond : second.Gives Q) :
    ∀ (n : Nat) (found : Option α × Option β), (∀ a ∈ found.1, P a) → (∀ b ∈ found.2, Q b) →
      Gives (namedParts first second depth n found)
        fun found => (∀ a ∈ found.1, P a) ∧ ∀ b ∈ found.2, Q b
  | 0, found, hP, hQ => by
    rw [namedParts]
    exact gives_pure ⟨hP, hQ⟩
  | n + 1, (x, y), hP, hQ => by
    have ih := gives_namedParts hfirst hsecond n
    rw [namedParts]
    refine (gives_any _).bind fun place _ => ?_
    split
    · split
      · exact gives_failure
      · exact hfirst.read.bind fun a ha => ih _ (fun _ h => Option.some.inj h ▸ ha) hQ
    · split
      · exact gives_failure
      · exact hsecond.read.bind fun b hb => ih _ hP fun _ h => Option.some.inj h ▸ hb
    · exact (gives_any _).bind fun _ _ => ih _ hP hQ

theorem pairOfBytes?_of_gives (hfirst : first.Gives P) (hsecond : second.Gives Q) {bytes : List UInt8}
    {found : α × β} (h : pairOfBytes? first second bytes = some found) : P found.1 ∧ Q found.2 := by
  rw [pairOfBytes?.eq_def] at h
  split at h
  · next x y _ =>
    obtain ⟨a, ha, h⟩ := Option.bind_eq_some_iff.mp h
    obtain ⟨b, hb, h⟩ := Option.bind_eq_some_iff.mp h
    cases h
    exact ⟨hfirst.ofByte x a ha, hsecond.ofByte y b hb⟩
  · cases h

/-- **Both parts of a pair** that is read are what their readers give. -/
theorem gives_pair (hfirst : first.Gives P) (hsecond : second.Gives Q) (hmissing : ∀ b ∈ missing, Q b) :
    Gives (readPair depth first second missing) fun found => P found.1 ∧ Q found.2 := by
  refine (gives_any _).bind fun k _ => ?_
  split
  · exact hfirst.read.bind fun a ha => hsecond.read.map fun b hb => ⟨ha, hb⟩
  · refine (gives_namedParts hfirst hsecond _ _ (fun a h => absurd h (Option.not_mem_none a))
      fun b h => absurd h (Option.not_mem_none b)).bind ?_
    rintro ⟨x, y⟩ ⟨hP, hQ⟩
    rcases x with _ | x
    · exact gives_failure
    rcases y with _ | y
    · rcases missing with _ | y
      · exact gives_failure
      · exact gives_pure ⟨hP x rfl, hmissing y rfl⟩
    · exact gives_pure ⟨hP x rfl, hQ y rfl⟩
  · refine (gives_any _).bind fun bytes _ => ?_
    split
    · next h => exact gives_pure (pairOfBytes?_of_gives hfirst hsecond h)
    · exact gives_failure
  · exact gives_failure

end Fieldbook.MessagePack
