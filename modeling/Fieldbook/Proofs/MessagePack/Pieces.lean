import Fieldbook.Proofs.MessagePack.Heads

/-!
# Proofs/MessagePack/Pieces — texts, numbers, names and rows read as they are written

Each kind of piece is taken by the reader that is due for it.  A text has to be short enough for its
length to be written (`TextFits`), and a row to have few enough pieces; both are counted in four
bytes.
-/

namespace Fieldbook.MessagePack

variable {α β : Type} {s : String} {i : Int} {depth : Nat}

/-- A number of bytes or pieces that four bytes can write. -/
def CountFits (n : Nat) : Prop := n < 0x100000000

/-- A text with a length that four bytes can write. -/
def TextFits (s : String) : Prop := CountFits (Text.utf8 s).length

instance (n : Nat) : Decidable (CountFits n) := inferInstanceAs (Decidable (n < _))

instance (s : String) : Decidable (TextFits s) := inferInstanceAs (Decidable (CountFits _))

/-! ## Texts -/

theorem takes_utf8 (s : String) : Takes (utf8 (Text.utf8 s).length) (Text.utf8 s) s :=
  (takes_take (Text.utf8 s)).answer (by simp only [Text.ofUtf8?_utf8])

/-- **A text reads as it is written.** -/
theorem takes_text (h : TextFits s) : Takes readText (text s) s :=
  (takes_textHead h).bind (takes_utf8 s)

theorem takes_writtenText (h : TextFits s) : Takes readWrittenText (text s) s :=
  (takes_textHead h).bind (takes_utf8 s)

/-- No text starts with the byte that stands for nothing. -/
theorem textHead_ne (n : Nat) : ∃ b bytes, textHead n = b :: bytes ∧ b ≠ 0xc0 := by
  rw [textHead]
  split
  · next hsmall =>
    refine ⟨_, [], rfl, fun h => ?_⟩
    have hbyte : (0xa0 + countKept n) % 256 = 0xc0 := congrArg UInt8.toNat h
    omega
  split
  · exact ⟨_, _, rfl, by decide⟩
  split <;> exact ⟨_, _, rfl, by decide⟩

theorem takes_nothing : Takes readText? nil none := fun _ => rfl

theorem takes_something (h : TextFits s) : Takes readText? (text s) (some s) := by
  intro rest
  obtain ⟨b, bytes, hhead, hb⟩ := textHead_ne (Text.utf8 s).length
  have hread : Takes (do return some (← readText)) (text s) (some s) := (takes_text h).map
  have htext : text s = b :: (bytes ++ Text.utf8 s) := by
    rw [text, hhead]
    rfl
  rw [← hread rest, htext, List.cons_append, readText?]
  rintro _ ⟨⟩
  exact hb rfl

/-- **A name reads as its place** among the names. -/
theorem takes_name {names : List String} {place : Nat} (h : TextFits s)
    (hplace : (names.findIdx? fun name => Text.utf8 name == Text.utf8 s) = some place) :
    Takes (readName names) (text s) (some place) :=
  (takes_textHead h).bind ((takes_take (Text.utf8 s)).answer (by simp only [hplace]))

/-! ## Numbers -/

theorem takes_readBoolean (b : Bool) : Takes readBoolean (boolean b) b := by
  cases b <;> exact fun _ => rfl

/-- **A double reads as it is written,** NaN and the zeros among them. -/
theorem takes_readDouble (x : Double) : Takes readDouble (double x) x :=
  (takes_double x).answer (by simp only [UInt64.ofNat_toNat])

/-- **A whole number within bounds** reads as it is written. -/
theorem takes_whole {low high : Int} (hi : low ≤ i ∧ i ≤ high)
    (hbounds : -0x8000000000000000 ≤ low ∧ high < 0x10000000000000000) :
    Takes (readWhole low high) (integer i) i := by
  have hhead : Takes head (integer i) (wholeHead i) := takes_integer (by omega)
  rcases Int.lt_or_le i 0 with hneg | hnonneg
  · rw [wholeHead, if_neg (Int.not_le.mpr hneg)] at hhead
    exact hhead.answer (if_pos hi)
  · have hvalue : ((i.toNat : Nat) : Int) = i := Int.toNat_of_nonneg hnonneg
    rw [wholeHead, if_pos hnonneg] at hhead
    refine hhead.answer ?_
    simp only [hvalue, pure_bind, if_pos hi]

theorem takes_int32 (i : Int32) : Takes readInt32 (integer i.toInt) i := by
  have hwhole : Takes (readWhole (-0x80000000) 0x7fffffff) (integer i.toInt) i.toInt :=
    takes_whole ⟨i.le_toInt, Int.le_of_lt_add_one i.toInt_lt⟩ (by decide)
  have hread : Takes readInt32 (integer i.toInt) (Int32.ofInt i.toInt) := hwhole.map
  rwa [Int32.ofInt_toInt] at hread

theorem takes_uint32 (n : UInt32) : Takes readUInt32 (natural n.toNat) n := by
  have hn : n.toNat < 0x100000000 := n.toNat_lt
  have hwhole : Takes (readWhole 0 0xffffffff) (integer n.toNat) n.toNat :=
    takes_whole (by omega) (by decide)
  have hread : Takes readUInt32 (integer n.toNat) (UInt32.ofNat (n.toNat : Int).toNat) := hwhole.map
  rwa [integer, if_pos (Int.natCast_nonneg _), Int.toNat_natCast, UInt32.ofNat_toNat] at hread

/-! ## Rows -/

/-- **Pieces one after another** read as they are written. -/
theorem takes_many {item : Reader α} {write : α → List UInt8} : ∀ {as : List α},
    (∀ a ∈ as, Takes item (write a) a) → Takes (many as.length item) (as.flatMap write) as
  | [], _ => takes_pure []
  | a :: as, h => by
    have hfirst : Takes item (write a) a := h a List.mem_cons_self
    have hrest : Takes (many as.length item) (as.flatMap write) as :=
      takes_many fun b hb => h b (List.mem_cons_of_mem _ hb)
    rw [List.flatMap_cons]
    exact hfirst.bind hrest.map

/-- A row of pieces. -/
theorem takes_array {item : Reader α} {bytes : List UInt8} {as : List α} (hcount : CountFits as.length)
    (hitems : Takes (many as.length item) bytes as) :
    Takes (readArray (depth + 1) item) (arrayHead as.length ++ bytes) as :=
  (takes_arrayHead hcount).bind hitems

/-- **A pair** reads as it is written, its parts in a row. -/
theorem takes_pair {a : PairPart α} {b : PairPart β} {missing : Option β} {bytes bytes' : List UInt8}
    {x : α} {y : β} (hx : Takes a.read bytes x) (hy : Takes b.read bytes' y) :
    Takes (readPair (depth + 1) a b missing) (arrayHead 2 ++ bytes ++ bytes') (x, y) := by
  rw [List.append_assoc]
  exact (takes_arrayHead (n := 2) (by decide)).bind (hx.bind hy.map)

end Fieldbook.MessagePack
