import Fieldbook.MessagePack.Reader

/-!
# Proofs/MessagePack/Heads — pieces of the binary format read as they are written

A reader takes some bytes as a value if it leaves whatever follows them (`Takes`), and readers that
follow each other take bytes one after the other.  Every head is read as it is written, whichever of
its forms the number or length needs, as long as there is one: numbers have eight bytes at most and
lengths four.
-/

namespace Fieldbook.MessagePack

/-- The reader takes the bytes as `a` and leaves what follows. -/
def Takes {α : Type} (r : Reader α) (bytes : List UInt8) (a : α) : Prop :=
  ∀ rest, r (bytes ++ rest) = some (a, rest)

variable {α β : Type} {r : Reader α} {f : α → Reader β} {bytes bytes' : List UInt8} {a : α} {b : β}
  {h width n : Nat} {i : Int}

theorem takes_pure (a : α) : Takes (pure a) [] a := fun _ => rfl

/-- **Readers that follow each other** take bytes one after the other. -/
theorem Takes.bind (hr : Takes r bytes a) (hf : Takes (f a) bytes' b) :
    Takes (r >>= f) (bytes ++ bytes') b := by
  intro rest
  change (r (bytes ++ bytes' ++ rest)).bind (fun x => f x.1 x.2) = _
  rw [List.append_assoc, hr]
  exact hf rest

/-- A reader whose answer settles what follows, without another byte. -/
theorem Takes.answer (hr : Takes r bytes a) (hf : f a = pure b) : Takes (r >>= f) bytes b := by
  have hpure : Takes (f a) [] b := hf ▸ takes_pure b
  have hbind : Takes (r >>= f) (bytes ++ []) b := hr.bind hpure
  rwa [List.append_nil] at hbind

/-- A reader whose answer is only put differently. -/
theorem Takes.map {g : α → β} (hr : Takes r bytes a) : Takes (do return g (← r)) bytes (g a) :=
  hr.answer rfl

/-! ## Numbers -/

/-- The bytes of a number make up the number, as far as they reach. -/
theorem foldl_bigEndian (width n start : Nat) :
    (bigEndian width n).foldl (fun n b => 256 * n + b.toNat) start =
      start * Nat.pow 256 width + n % Nat.pow 256 width := by
  induction width generalizing start with
  | zero => simp [bigEndian, Nat.mod_one]
  | succ width ih =>
    have hbyte : (UInt8.ofNat (n / Nat.pow 256 width)).toNat = n / Nat.pow 256 width % 256 := rfl
    have hsplit : n % (Nat.pow 256 width * 256) =
        n % Nat.pow 256 width + Nat.pow 256 width * (n / Nat.pow 256 width % 256) := Nat.mod_mul
    have hpow : Nat.pow 256 (width + 1) = Nat.pow 256 width * 256 := rfl
    rw [bigEndian, List.foldl_cons, ih, hbyte, hpow, hsplit, Nat.add_mul, Nat.mul_comm 256 start,
      Nat.mul_assoc, Nat.mul_comm 256 (Nat.pow 256 width), Nat.mul_comm (_ % 256)]
    omega

theorem length_bigEndian (width n : Nat) : (bigEndian width n).length = width := by
  induction width with
  | zero => rfl
  | succ width ih => rw [bigEndian, List.length_cons, ih]

theorem takes_take (bytes : List UInt8) : Takes (take bytes.length) bytes bytes := by
  intro rest
  simp [take]

/-- **A number of some bytes reads as the number.** -/
theorem takes_number (h : n < Nat.pow 256 width) : Takes (number width) (bigEndian width n) n := by
  have hvalue : ofBigEndian (bigEndian width n) = n := by
    rw [ofBigEndian, foldl_bigEndian, Nat.zero_mul, Nat.zero_add, Nat.mod_eq_of_lt h]
  have htake : Takes (take width) (bigEndian width n) (bigEndian width n) := by
    have htake := takes_take (bigEndian width n)
    rwa [length_bigEndian] at htake
  have hnumber : Takes (number width) (bigEndian width n) (ofBigEndian (bigEndian width n)) :=
    htake.map
  rwa [hvalue] at hnumber

/-! ## Heads -/

theorem takes_byte (hb : h < 256) {k : Head} (hk : headOf h = pure k) : Takes head [byte h] k := by
  intro rest
  have hbyte : (byte h).toNat = h := Nat.mod_eq_of_lt hb
  change headOf (byte h).toNat rest = _
  rw [hbyte, hk]
  rfl

/-- A head with a number after it. -/
theorem takes_headed {k : Nat → Head} (hb : h < 256) (hn : n < Nat.pow 256 width)
    (hk : headOf h = do return k (← number width)) : Takes head (headed h width n) (k n) := by
  intro rest
  have hbyte : (byte h).toNat = h := Nat.mod_eq_of_lt hb
  change headOf (byte h).toNat (bigEndian width n ++ rest) = _
  rw [hbyte, hk]
  exact (takes_number hn).map rest

theorem takes_double (x : Double) : Takes head (double x) (.double x.bits.toNat) :=
  takes_headed (by decide) x.bits.toNat_lt rfl

theorem takes_natural (hn : n < 0x10000000000000000) : Takes head (natural n) (.unsigned n) := by
  rw [natural]
  split
  · next hsmall => exact takes_byte (by omega) (if_pos hsmall)
  split
  · next hone => exact takes_headed (by decide) hone rfl
  split
  · next htwo => exact takes_headed (by decide) htwo rfl
  split
  · next hfour => exact takes_headed (by decide) hfour rfl
  · exact takes_headed (by decide) hn rfl

/-- The head of a whole number. -/
def wholeHead (i : Int) : Head := if 0 ≤ i then .unsigned i.toNat else .signed i

/-- A negative number in two's complement. -/
theorem takes_negative (bound : Int) (hb : h < 256)
    (hk : headOf h = do return .signed (twosComplement width (← number width)))
    (hhalf : bound = Nat.pow 2 (8 * width - 1)) (hwhole : bound * 2 = Nat.pow 2 (8 * width))
    (hi : -bound ≤ i ∧ i < 0) : Takes head (headed h width (bound * 2 + i).toNat) (.signed i) := by
  have hpow : Nat.pow 256 width = Nat.pow 2 (8 * width) := (Nat.pow_mul 2 8 width).symm
  have hlt : (bound * 2 + i).toNat < Nat.pow 256 width := by
    rw [hpow]
    omega
  have hvalue : twosComplement width (bound * 2 + i).toNat = i := by
    rw [twosComplement, if_neg (by omega)]
    omega
  have hread : Takes head (headed h width (bound * 2 + i).toNat)
      (.signed (twosComplement width (bound * 2 + i).toNat)) :=
    takes_headed (k := fun n => .signed (twosComplement width n)) hb hlt hk
  rwa [hvalue] at hread

/-- **A whole number** of eight bytes or fewer. -/
theorem takes_integer (hi : -0x8000000000000000 ≤ i ∧ i < 0x10000000000000000) :
    Takes head (integer i) (wholeHead i) := by
  rw [integer, wholeHead]
  split
  · exact takes_natural (by omega)
  split
  · next hsmall =>
    have hvalue : (((256 + i).toNat : Nat) : Int) - 256 = i := by omega
    have hhead : headOf (256 + i).toNat = pure (.signed i) := by
      unfold headOf
      rw [if_neg (by omega), if_neg (by omega), if_neg (by omega), if_neg (by omega),
        if_pos (by omega), hvalue]
    exact takes_byte (by omega) hhead
  split
  · exact takes_negative 0x80 (by decide) rfl rfl rfl (by omega)
  split
  · exact takes_negative 0x8000 (by decide) rfl rfl rfl (by omega)
  split
  · exact takes_negative 0x80000000 (by decide) rfl rfl rfl (by omega)
  · exact takes_negative 0x8000000000000000 (by decide) rfl rfl rfl (by omega)

/-- A count of four bytes is kept. -/
theorem countKept_of_lt (hn : n < 0x100000000) : countKept n = n := Nat.mod_eq_of_lt hn

/-- The head of a text. -/
theorem takes_textHead (hn : n < 0x100000000) : Takes head (textHead n) (.text n) := by
  rw [textHead, countKept_of_lt hn]
  split
  · next hsmall =>
    have hhead : headOf (0xa0 + n) = pure (.text n) := by
      unfold headOf
      rw [if_neg (by omega), if_neg (by omega), if_neg (by omega), if_pos (by omega),
        Nat.add_sub_cancel_left]
    exact takes_byte (by omega) hhead
  split
  · next hone => exact takes_headed (by decide) hone rfl
  split
  · next htwo => exact takes_headed (by decide) htwo rfl
  · exact takes_headed (by decide) hn rfl

theorem takes_arrayHead (hn : n < 0x100000000) : Takes head (arrayHead n) (.array n) := by
  rw [arrayHead, countKept_of_lt hn]
  split
  · next hsmall =>
    have hhead : headOf (0x90 + n) = pure (.array n) := by
      unfold headOf
      rw [if_neg (by omega), if_neg (by omega), if_pos (by omega), Nat.add_sub_cancel_left]
    exact takes_byte (by omega) hhead
  split
  · next htwo => exact takes_headed (by decide) htwo rfl
  · exact takes_headed (by decide) hn rfl

theorem takes_mapHead (hn : n < 0x100000000) : Takes head (mapHead n) (.map n) := by
  rw [mapHead, countKept_of_lt hn]
  split
  · next hsmall =>
    have hhead : headOf (0x80 + n) = pure (.map n) := by
      unfold headOf
      rw [if_neg (by omega), if_pos (by omega), Nat.add_sub_cancel_left]
    exact takes_byte (by omega) hhead
  split
  · next htwo => exact takes_headed (by decide) htwo rfl
  · exact takes_headed (by decide) hn rfl

end Fieldbook.MessagePack
