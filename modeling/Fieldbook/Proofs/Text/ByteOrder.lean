import Fieldbook.Ident
import Fieldbook.Text.Bytes

/-!
# Proofs/Text/ByteOrder — the order of texts and the order of their bytes

The bytes of a text are those of its characters (`utf8_eq`).  Texts are ordered by their code
points, and so are their bytes in UTF-8 (`utf8_lt`): the bytes of a lower code point come before
those of a higher one, whatever follows either.
-/

namespace Fieldbook.Text

variable {us vs : List UInt8}

/-- The bytes of a text are those of its characters. -/
theorem utf8_eq (s : String) : utf8 s = s.toList.flatMap String.utf8EncodeChar := by
  have hbytes : s.toByteArray = s.toList.utf8Encode := by
    rw [← String.toByteArray_ofList, String.ofList_toList]
  rw [utf8, String.toUTF8_eq_toByteArray, hbytes, List.utf8Encode, List.data_toByteArray]

/-- A text has no more than four bytes for each of its characters. -/
theorem length_utf8_le (s : String) : (utf8 s).length ≤ 4 * s.toList.length := by
  rw [utf8_eq]
  induction s.toList with
  | nil => exact Nat.le_refl 0
  | cons c cs ih =>
    have hsize : (String.utf8EncodeChar c).length ≤ 4 := by
      rw [String.length_utf8EncodeChar]
      exact c.utf8Size_le_four
    rw [List.flatMap_cons, List.length_append, List.length_cons]
    omega

theorem ofNat_cons_lt {a b : Nat} (hb : b < 256) (hle : a ≤ b) (h : a = b → us < vs) :
    UInt8.ofNat a :: us < UInt8.ofNat b :: vs := by
  rw [List.cons_lt_cons_iff, UInt8.ofNat_lt_iff_lt (Nat.lt_of_le_of_lt hle hb) hb]
  exact (Nat.lt_or_eq_of_le hle).imp_right fun heq => ⟨congrArg UInt8.ofNat heq, h heq⟩

/-- The first byte in which two characters differ is lower in the lower one. -/
theorem encode_lt {c d : Char} (h : c < d) :
    String.utf8EncodeChar c ++ us < String.utf8EncodeChar d ++ vs := by
  have hlt : c.val.toNat < d.val.toNat := h
  have hmax : d.val.toNat < 1114112 := by
    have hvalid : d.val.toNat < 55296 ∨ 57343 < d.val.toNat ∧ d.val.toNat < 1114112 := d.valid
    omega
  -- The first byte tells how many there are, and those after it count in steps of 64.
  simp only [String.utf8EncodeChar]
  repeat' split
  all_goals repeat' first | omega | refine ofNat_cons_lt (by omega) (by omega) fun _ => ?_

theorem append_lt_append (h : us < vs) : ∀ ws : List UInt8, ws ++ us < ws ++ vs
  | [] => h
  | _ :: ws => List.cons_lt_cons_iff.mpr (.inr ⟨rfl, append_lt_append h ws⟩)

theorem flatMap_encode_lt : ∀ {cs ds : List Char}, cs < ds →
    cs.flatMap String.utf8EncodeChar < ds.flatMap String.utf8EncodeChar
  | _, [], h => absurd h (List.not_lt_nil _)
  | [], d :: ds, _ => by
    obtain ⟨b, bs, hd⟩ := List.exists_cons_of_ne_nil (String.utf8EncodeChar_ne_nil (c := d))
    rw [List.flatMap_cons, hd]
    exact List.nil_lt_cons _ _
  | c :: cs, d :: ds, h => by
    rw [List.flatMap_cons, List.flatMap_cons]
    rcases List.cons_lt_cons_iff.mp h with hlt | ⟨rfl, hlt⟩
    · exact encode_lt hlt
    · exact append_lt_append (flatMap_encode_lt hlt) _

/-- **Texts are in the order of their bytes.** -/
theorem utf8_lt {s t : String} (h : s < t) : utf8 s < utf8 t := by
  rw [utf8_eq, utf8_eq]
  exact flatMap_encode_lt (String.lt_iff.mp h)

end Fieldbook.Text
