import EggLang.Position
import Mathlib.Data.List.TakeWhile

/-! Places as functions of the text before them, the bytes between two places, the earlier and the
later of two places, and places that move on together when there is more text before them. -/

namespace EggLang

namespace Position

/-- The place behind `cs` where that is all the text before it. -/
def behind (cs : List Char) : Position where
  offset := (String.ofList cs).utf8ByteSize
  line := 1 + cs.count '\n'
  column := 1 + (cs.reverse.takeWhile (· ≠ '\n')).length

theorem behind_nil : behind [] = start := by decide

theorem next_behind (cs : List Char) (c : Char) : (behind cs).next c = behind (cs ++ [c]) := by
  have hoffset : (String.ofList (cs ++ [c])).utf8ByteSize =
      (String.ofList cs).utf8ByteSize + c.utf8Size := by
    rw [String.ofList_append, String.utf8ByteSize_append, ← String.singleton_eq_ofList,
      String.utf8ByteSize_singleton]
  unfold next behind
  rw [hoffset]
  by_cases h : c = '\n'
  · simp [h, Nat.add_assoc]
  · simp [h, Nat.add_assoc, List.count_append]

theorem advance_behind (cs ds : List Char) : (behind cs).advance ds = behind (cs ++ ds) := by
  induction ds generalizing cs with
  | nil => rw [advance_nil, List.append_nil]
  | cons d ds ih => rw [advance_cons, next_behind, ih, List.append_assoc, List.singleton_append]

theorem offset_behind_append (cs ds : List Char) :
    (behind (cs ++ ds)).offset = (behind cs).offset + (String.ofList ds).utf8ByteSize := by
  show (String.ofList (cs ++ ds)).utf8ByteSize = _
  rw [String.ofList_append, String.utf8ByteSize_append]
  rfl

theorem offset_le_behind (cs ds : List Char) :
    (behind cs).offset ≤ (behind (cs ++ ds)).offset := by
  rw [offset_behind_append]
  exact Nat.le_add_right _ _

theorem offset_lt_of_ne_nil (cs : List Char) {ds : List Char} (h : ds ≠ []) :
    (behind cs).offset < (behind (cs ++ ds)).offset := by
  obtain ⟨d, rest, rfl⟩ := List.exists_cons_of_ne_nil h
  have hsize := d.utf8Size_pos
  have hd : (behind (cs ++ [d])).offset = (behind cs).offset + d.utf8Size := by
    rw [offset_behind_append, ← String.singleton_eq_ofList, String.utf8ByteSize_singleton]
  have hrest := offset_behind_append (cs ++ [d]) rest
  rw [List.append_assoc, List.singleton_append] at hrest
  omega

/-- The bytes between two places are those of the text between them. -/
theorem extract_behind {text : String} {before word after : List Char}
    (h : text.toList = before ++ word ++ after) :
    text.toUTF8.extract (behind before).offset (behind (before ++ word)).offset =
      (String.ofList word).toUTF8 := by
  have htext : text = String.ofList before ++ (String.ofList word ++ String.ofList after) := by
    rw [← String.ofList_toList (s := text), h, List.append_assoc, String.ofList_append,
      String.ofList_append]
  have hsize : (behind before).offset = (String.ofList before).toUTF8.size :=
    String.size_toByteArray.symm
  have hword := String.size_toByteArray (s := String.ofList word)
  rw [htext, offset_behind_append, hsize, ← hword]
  show ((String.ofList before ++ _).toByteArray).extract _ _ = _
  rw [String.toByteArray_append, String.toByteArray_append]
  have hskip := ByteArray.extract_append_size_add (a := (String.ofList before).toByteArray)
    (b := (String.ofList word).toByteArray ++ (String.ofList after).toByteArray) (i := 0)
    (j := (String.ofList word).toByteArray.size)
  exact hskip.trans (ByteArray.extract_append_eq_left rfl)

/-! ### The earlier and the later of two places -/

theorem earlier_eq (p q : Position) : p.earlier q = p ∨ p.earlier q = q := by
  rw [earlier]
  split
  · exact .inr rfl
  · exact .inl rfl

theorem later_eq (p q : Position) : p.later q = p ∨ p.later q = q := by
  rw [later]
  split
  · exact .inr rfl
  · exact .inl rfl

/-- Of two places, the one with the smaller offset comes first. -/
theorem compare_of_lt {p q : Position} (h : p.offset < q.offset) :
    compare p q = .lt ∧ compare q p = .gt := by
  have hpq : compare p.offset q.offset = .lt := Nat.compare_eq_lt.mpr h
  have hqp : compare q.offset p.offset = .gt := Nat.compare_eq_gt.mpr h
  show (compare p.offset q.offset).then _ = _ ∧ (compare q.offset p.offset).then _ = _
  rw [hpq, hqp]
  exact ⟨rfl, rfl⟩

theorem offset_earlier (p q : Position) : (p.earlier q).offset = min p.offset q.offset := by
  rcases Nat.lt_trichotomy p.offset q.offset with h | h | h
  · rw [earlier, (compare_of_lt h).2, if_neg (by decide), Nat.min_eq_left (Nat.le_of_lt h)]
  · rcases p.earlier_eq q with he | he <;> rw [he] <;> omega
  · rw [earlier, (compare_of_lt h).1, if_pos rfl, Nat.min_eq_right (Nat.le_of_lt h)]

theorem offset_later (p q : Position) : (p.later q).offset = max p.offset q.offset := by
  rcases Nat.lt_trichotomy p.offset q.offset with h | h | h
  · rw [later, (compare_of_lt h).2, if_pos rfl, Nat.max_eq_right (Nat.le_of_lt h)]
  · rcases p.later_eq q with he | he <;> rw [he] <;> omega
  · rw [later, (compare_of_lt h).1, if_neg (by decide), Nat.max_eq_left (Nat.le_of_lt h)]

/-! ### Moving on -/

/-- The place `p` moved on by the bytes, lines and columns of `d`. -/
def move (d p : Position) : Position :=
  ⟨p.offset + d.offset, p.line + d.line, p.column + d.column⟩

/-- A newline forgets the column. -/
theorem move_next {d : Position} {c : Char} (h : d.column = 0 ∨ c ≠ '\n') (p : Position) :
    d.move (p.next c) = (d.move p).next c := by
  by_cases hc : c = '\n'
  · have hd : d.column = 0 := h.resolve_right fun h => h hc
    rw [next, next, if_pos hc, if_pos hc, move, move, mk.injEq, hd]
    exact ⟨Nat.add_right_comm .., Nat.add_right_comm .., rfl⟩
  · rw [next, next, if_neg hc, if_neg hc, move, move, mk.injEq]
    exact ⟨Nat.add_right_comm .., rfl, Nat.add_right_comm ..⟩

theorem move_advance {d : Position} {cs : List Char} (h : d.column = 0 ∨ '\n' ∉ cs)
    (p : Position) : d.move (p.advance cs) = (d.move p).advance cs := by
  induction cs generalizing p with
  | nil => rfl
  | cons c cs ih =>
    rw [List.mem_cons, not_or] at h
    rw [advance_cons, advance_cons, ih (h.imp_right And.right),
      move_next (h.imp_right fun h => Ne.symm h.1)]

theorem compare_add_right (m n k : Nat) : compare (m + k) (n + k) = compare m n := by
  rw [Nat.compare_eq_ite_lt, Nat.compare_eq_ite_lt]
  simp only [Nat.add_lt_add_iff_right]

theorem compare_move (d p q : Position) : compare (d.move p) (d.move q) = compare p q := by
  show ((compare (p.offset + d.offset) (q.offset + d.offset)).then
    ((compare (p.line + d.line) (q.line + d.line)).then
      (compare (p.column + d.column) (q.column + d.column)))) = _
  rw [compare_add_right, compare_add_right, compare_add_right]
  rfl

theorem move_earlier (d p q : Position) : d.move (p.earlier q) = (d.move p).earlier (d.move q) := by
  rw [earlier, earlier, compare_move]
  split <;> rfl

theorem move_later (d p q : Position) : d.move (p.later q) = (d.move p).later (d.move q) := by
  rw [later, later, compare_move]
  split <;> rfl

/-- How far a text and a newline move what is behind them. -/
def below (text : String) : Position :=
  ⟨text.utf8ByteSize + 1, 1 + text.toList.count '\n', 0⟩

theorem start_advance_below (text : String) :
    start.advance (text.toList ++ ['\n']) = (below text).move start := by
  have hoffset := offset_behind_append text.toList ['\n']
  have hsize : (String.ofList ['\n']).utf8ByteSize = 1 := by decide
  rw [← behind_nil, advance_behind, List.nil_append, behind_nil, eq_comm]
  simp only [move, below, start, behind, mk.injEq, List.count_append, List.reverse_append]
  refine ⟨?_, by simp; omega, by simp⟩
  rw [show (String.ofList (text.toList ++ ['\n'])).utf8ByteSize = _ from hoffset, hsize,
    Nat.zero_add, behind, String.ofList_toList]

/-- A text without a newline moves what follows on its line. -/
theorem start_advance_line {cs : List Char} (h : '\n' ∉ cs) :
    start.advance cs = move ⟨(String.ofList cs).utf8ByteSize, 0, cs.length⟩ start := by
  have hall : cs.reverse.takeWhile (· ≠ '\n') = cs.reverse := by
    rw [List.takeWhile_eq_self_iff]
    intro c hc
    rw [decide_eq_true_eq]
    rintro rfl
    exact h (List.mem_reverse.mp hc)
  rw [← behind_nil, advance_behind, List.nil_append, behind_nil, eq_comm]
  simp only [move, start, behind, mk.injEq, hall, List.count_eq_zero.mpr h]
  simp

end Position

/-- The span moved on as its ends are. -/
def Span.move (d : Position) (s : Span) : Span := ⟨d.move s.start, d.move s.stop⟩

theorem Span.move_join (d : Position) (s t : Span) :
    (s.join t).move d = (s.move d).join (t.move d) := by
  rw [join, join, move, Position.move_earlier, Position.move_later]
  rfl

end EggLang
