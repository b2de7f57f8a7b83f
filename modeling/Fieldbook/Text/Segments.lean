/-!
# Text/Segments — the parts of a text between marks

A text is cut at every mark; the parts around a mark may be empty, and a text without a mark is one
part. Cutting undoes joining for parts that hold no mark (`segments_joined`), and joining always
undoes cutting (`joined_segments`).
-/

namespace Fieldbook.Text

/-- The parts of a text between the marks in it. -/
def segments (mark : Char) : List Char → List (List Char)
  | [] => [[]]
  | c :: rest =>
    if c = mark then [] :: segments mark rest
    else match segments mark rest with
      | [] => [[c]]
      | s :: more => (c :: s) :: more

/-- Parts with a mark between each two of them. -/
def joined (mark : Char) : List (List Char) → List Char
  | [] => []
  | [s] => s
  | s :: t :: more => s ++ mark :: joined mark (t :: more)

theorem segments_ne_nil (mark : Char) (cs : List Char) : segments mark cs ≠ [] := by
  cases cs with
  | nil => simp [segments]
  | cons c rest =>
    unfold segments
    split
    · simp
    · split <;> simp

theorem joined_segments (mark : Char) : ∀ cs : List Char, joined mark (segments mark cs) = cs
  | [] => rfl
  | c :: rest => by
    have ih := joined_segments mark rest
    have hne := segments_ne_nil mark rest
    unfold segments
    split
    · next h =>
      subst h
      match hs : segments c rest, hne with
      | s :: more, _ => rw [hs] at ih; simp [joined, ih]
    · match hs : segments mark rest, hne with
      | [s], _ => rw [hs] at ih; simpa [joined] using ih
      | s :: t :: more, _ => rw [hs] at ih; simpa [joined] using ih

theorem segments_of_not_mem {mark : Char} : ∀ {s : List Char}, mark ∉ s → segments mark s = [s]
  | [], _ => rfl
  | c :: rest, h => by
    have hc : c ≠ mark := fun e => h (e ▸ List.mem_cons_self ..)
    have ih := segments_of_not_mem fun hm => h (List.mem_cons_of_mem _ hm)
    simp [segments, hc, ih]

theorem segments_append_mark {mark : Char} (cs : List Char) :
    ∀ {s : List Char}, mark ∉ s → segments mark (s ++ mark :: cs) = s :: segments mark cs
  | [], _ => by simp [segments]
  | c :: rest, h => by
    have hc : c ≠ mark := fun e => h (e ▸ List.mem_cons_self ..)
    have ih := segments_append_mark cs fun hm => h (List.mem_cons_of_mem _ hm)
    simp [segments, hc, ih]

theorem segments_joined {mark : Char} : ∀ {parts : List (List Char)}, parts ≠ [] →
    (∀ s ∈ parts, mark ∉ s) → segments mark (joined mark parts) = parts
  | [s], _, h => segments_of_not_mem (h s (by simp))
  | s :: t :: more, _, h => by
    have ih : segments mark (joined mark (t :: more)) = t :: more :=
      segments_joined (by simp) fun u hu => h u (List.mem_cons_of_mem _ hu)
    simp only [joined]
    rw [segments_append_mark _ (h s (by simp)), ih]

end Fieldbook.Text
