import EggLang.CommandLine
import EggLang.Proofs.Concatenation
import Mathlib.Data.List.Forall2

/-! Lines of text: the blanks that are trimmed off a line, programs put together from lines, and the
lines that an input is cut into. -/

namespace EggLang

open Parse

/-! ### Blanks around a line -/

namespace Text

theorem dropWhile_isBlank_append (cs : List Char) {tail : List Char}
    (htail : ∀ c ∈ tail, isBlank c = true) :
    ∃ rest, (cs ++ tail).dropWhile isBlank = cs.dropWhile isBlank ++ rest ∧
      ∀ c ∈ rest, isBlank c = true := by
  rw [List.dropWhile_append]
  split
  · next h =>
    rw [List.dropWhile_eq_nil_iff.mpr htail, List.isEmpty_iff.mp h]
    exact ⟨[], rfl, List.forall_mem_nil _⟩
  · exact ⟨tail, rfl, htail⟩

/-- A text is its trimmed text between blanks. -/
theorem exists_of_trim (cs : List Char) :
    ∃ before after, cs = before ++ (trim cs ++ after) ∧ (∀ c ∈ before, isBlank c = true) ∧
      ∀ c ∈ after, isBlank c = true := by
  have hfront := List.takeWhile_append_dropWhile (p := isBlank) (l := cs)
  have hback := List.takeWhile_append_dropWhile (p := isBlank) (l := (cs.dropWhile isBlank).reverse)
  refine ⟨cs.takeWhile isBlank, ((cs.dropWhile isBlank).reverse.takeWhile isBlank).reverse, ?_,
    fun c hc => List.mem_takeWhile_imp hc,
    fun c hc => List.mem_takeWhile_imp (List.mem_reverse.mp hc)⟩
  rw [trim, ← List.reverse_append, hback, List.reverse_reverse, hfront]

/-- Blanks behind a text are trimmed off. -/
theorem trim_append (cs : List Char) {tail : List Char} (htail : ∀ c ∈ tail, isBlank c = true) :
    trim (cs ++ tail) = trim cs := by
  obtain ⟨rest, hdrop, hrest⟩ := dropWhile_isBlank_append cs htail
  have hreverse : ∀ c ∈ rest.reverse, isBlank c = true :=
    fun c hc => hrest c (List.mem_reverse.mp hc)
  rw [trim, trim, hdrop, List.reverse_append, List.dropWhile_append_of_pos hreverse]

end Text

/-- Blanks around a text without newlines move its tokens, but for the last one. -/
theorem tokenize_between_blanks {before cs after : List Char} {ts : List Token}
    (h : tokenize (String.ofList cs) = .ok ts) (hts : ts.IsChain Token.Apart)
    (hline : '\n' ∉ before ++ (cs ++ after)) (hbefore : ∀ c ∈ before, Text.isBlank c = true)
    (hafter : ∀ c ∈ after, Text.isBlank c = true) :
    ∃ d p, tokenize (String.ofList (before ++ (cs ++ after))) =
      .ok (ts.dropLast.map (Token.mapSpan (Span.move d)) ++ [.endOfFile p]) := by
  rw [List.mem_append, not_or] at hline
  obtain ⟨hlineBefore, hlineAfter⟩ := hline
  rw [tokenize, Source.ofString, String.toList_ofList] at h
  have htokens := Source.tokens_append h (.inl hts) hafter
    (fun hmem => hlineAfter (List.mem_append_right _ hmem)) (show EndsLine [] by rintro _ ⟨⟩)
  have hend := Source.tokens_of_last
    (Source.next_of_nil (s := ⟨Position.start.advance (cs ++ after), []⟩) rfl) rfl
  rw [List.append_nil, hend] at htokens
  -- The blanks in front move the tokens along the line. Those behind belong to the last gap.
  obtain ⟨d, hd⟩ : ∃ d : Position, Position.start.advance before = d.move .start :=
    ⟨_, Position.start_advance_line hlineBefore⟩
  have hmove := Source.tokens_move (s := ⟨.start, cs ++ after⟩) (d := d) (.inr hlineAfter)
  rw [htokens, Source.move, ← hd] at hmove
  have hgap : Gap before (cs ++ after) := by simpa using Gap.blanks hbefore .nil
  have hblanks := Source.tokens_congr (Source.next_of_gap_append hgap .start)
  refine ⟨d, d.move (Position.start.advance (cs ++ after)), ?_⟩
  rw [tokenize, Source.ofString, String.toList_ofList, hblanks, hmove]
  exact congrArg Except.ok List.map_append

/-- The blanks around a line only move what it parses to. -/
theorem parseProgram_of_trim {line : String} {body : List Stmt} (hline : '\n' ∉ line.toList)
    (h : parseProgram (String.ofList (Text.trim line.toList)) = .ok body) :
    ∃ f, parseProgram line = .ok (body.map (Stmt.mapSpans f)) := by
  obtain ⟨before, after, hcs, hbefore, hafter⟩ := Text.exists_of_trim line.toList
  obtain ⟨ts, hts, hbody⟩ := parseWith_eq_ok_iff.mp h
  obtain ⟨d, p, htokens⟩ := tokenize_between_blanks hts (apart_of_parse hts hbody)
    (by rwa [← hcs]) hbefore hafter
  rw [← hcs, String.ofList_toList] at htokens
  refine ⟨Span.move d, parseWith_eq_ok_iff.mpr ⟨_, htokens, ?_⟩⟩
  exact program_of_tokenize (Span.move_join d) hts hbody rfl .nowhere

/-! ### Programs made of lines -/

theorem parseProgram_empty : parseProgram "" = .ok [] := by
  refine parseWith_eq_ok_iff.mpr ⟨_, Source.tokens_of_last (Source.next_of_nil rfl) rfl, ?_⟩
  exact program_nil (by simp [visible, Token.endOfFile]) .nowhere

/-- Lines that parse by themselves are a program together, which does what they do one after the
other. -/
theorem parseProgram_lines {lines : List String} {bodies : List (List Stmt)}
    (h : List.Forall₂ (fun line body => '\n' ∉ line.toList ∧
      parseProgram (String.ofList (Text.trim line.toList)) = .ok body) lines bodies) :
    ∃ body, parseProgram ("\n".intercalate lines) = .ok body ∧
      Stmt.executeAll body = Stmt.executeAll bodies.flatten := by
  induction h with
  | nil => exact ⟨[], parseProgram_empty, rfl⟩
  | @cons line body lines bodies hline hlines ih =>
    obtain ⟨f, hbody⟩ := parseProgram_of_trim hline.1 hline.2
    cases hlines with
    | nil =>
      refine ⟨_, by rwa [String.intercalate_singleton], ?_⟩
      rw [Stmt.executeAll_map, List.flatten_cons, List.flatten_nil, List.append_nil]
    | cons hnext hrest =>
      obtain ⟨more, hmore, hexecute⟩ := ih
      refine ⟨_, by rw [String.intercalate_cons_cons]; exact parseProgram_newline hbody hmore, ?_⟩
      rw [List.flatten_cons, Stmt.executeAll_append, Stmt.executeAll_append, Stmt.executeAll_map,
        Stmt.executeAll_map, hexecute]

/-! ### The lines of an input -/

namespace CommandLine

/-- The lines of some bytes, the first of which starts with `line`. -/
def cut (line : ByteArray) : List UInt8 → List ByteArray
  | [] => if line.isEmpty then [] else [line]
  | byte :: rest =>
    if byte = 10 then line.push byte :: cut .empty rest else cut (line.push byte) rest

/-- The finished lines and the last one, with one byte more. -/
def readByte (read : Array ByteArray × ByteArray) (byte : UInt8) : Array ByteArray × ByteArray :=
  if byte = 10 then (read.1.push (read.2.push byte), .empty) else (read.1, read.2.push byte)

theorem foldl_readByte (bytes : List UInt8) (done : Array ByteArray) (line : ByteArray) :
    (let read := bytes.foldl readByte (done, line)
    if read.2.isEmpty then read.1.toList else read.1.toList ++ [read.2]) =
      done.toList ++ cut line bytes := by
  induction bytes generalizing done line with
  | nil =>
    rw [List.foldl_nil, cut]
    dsimp only
    split
    · exact (List.append_nil _).symm
    · rfl
  | cons byte rest ih =>
    rw [List.foldl_cons, cut, readByte]
    by_cases hbyte : byte = 10
    · rw [if_pos hbyte, if_pos hbyte, ih, Array.toList_push, List.append_assoc,
        List.singleton_append]
    · rw [if_neg hbyte, if_neg hbyte, ih]

theorem lines_eq_cut (input : ByteArray) : lines input = cut .empty input.data.toList := by
  rw [lines, ← Array.foldl_toList]
  exact foldl_readByte input.data.toList #[] .empty

theorem cut_append {bytes : List UInt8} (h : 10 ∉ bytes) (line : ByteArray) (rest : List UInt8) :
    cut line (bytes ++ rest) = cut (line ++ bytes.toByteArray) rest := by
  induction bytes generalizing line with
  | nil => rw [List.nil_append, List.toByteArray_nil, ByteArray.append_empty]
  | cons byte bytes ih =>
    rw [List.mem_cons, not_or] at h
    rw [List.cons_append, cut, if_neg (Ne.symm h.1), ih h.2]
    congr 1
    ext1
    simp

/-- No byte of another character is that of a newline. -/
theorem newline_not_mem_utf8EncodeChar {c : Char} (h : c ≠ '\n') :
    10 ∉ String.utf8EncodeChar c := by
  have hval : c.val.toNat ≠ 10 := fun hc => h (Char.ext (UInt32.toNat_inj.mp hc))
  have hbound : c.val.toNat < 1114112 := by
    rcases c.valid with hc | hc
    · omega
    · omega
  have hbyte : ∀ n, (10 : UInt8) = UInt8.ofNat n ↔ n % 256 = 10 := fun n => by
    rw [eq_comm]
    exact UInt8.ofNat_eq_iff_mod_eq_toNat n 10
  rw [String.utf8EncodeChar]
  split_ifs <;> simp only [List.mem_cons, List.not_mem_nil, or_false, hbyte] <;> omega

theorem toUTF8_data (text : String) :
    text.toUTF8.data.toList = text.toList.flatMap String.utf8EncodeChar := by
  rw [String.toUTF8, ← String.utf8Encode_toList, List.utf8Encode]
  simp

theorem newline_not_mem_toUTF8 {text : String} (h : '\n' ∉ text.toList) :
    10 ∉ text.toUTF8.data.toList := by
  rw [toUTF8_data, List.mem_flatMap]
  rintro ⟨c, hc, hmem⟩
  exact newline_not_mem_utf8EncodeChar (fun hnewline => h (hnewline ▸ hc)) hmem

theorem cut_toUTF8 {text : String} (h : '\n' ∉ text.toList) (rest : List UInt8) :
    cut .empty (text.toUTF8.data.toList ++ rest) = cut text.toUTF8 rest := by
  rw [cut_append (newline_not_mem_toUTF8 h), ByteArray.empty_append]
  congr 1
  ext1
  rw [List.data_toByteArray]

/-- An input is cut behind its newlines. -/
theorem lines_newline {line : String} (h : '\n' ∉ line.toList) (rest : String) :
    lines (line ++ "\n" ++ rest).toUTF8 = (line ++ "\n").toUTF8 :: lines rest.toUTF8 := by
  have hbytes : (line ++ "\n" ++ rest).toUTF8.data.toList =
      line.toUTF8.data.toList ++ 10 :: rest.toUTF8.data.toList := by
    rw [toUTF8_data, toUTF8_data, toUTF8_data, String.toList_append, String.toList_append,
      List.flatMap_append, List.flatMap_append, List.append_assoc]
    rfl
  rw [lines_eq_cut, lines_eq_cut, hbytes, cut_toUTF8 h, cut, if_pos rfl]
  congr 1
  rw [String.toUTF8, String.toUTF8, String.toByteArray_append,
    ← ByteArray.append_toByteArray_singleton]
  rfl

/-- What is behind the last newline is a line too. -/
theorem lines_of_last {line : String} (h : '\n' ∉ line.toList) (hne : line ≠ "") :
    lines line.toUTF8 = [line.toUTF8] := by
  have hcut := cut_toUTF8 h []
  rw [List.append_nil] at hcut
  rw [lines_eq_cut, hcut, cut, if_neg (by simpa [ByteArray.isEmpty] using hne)]

/-- Lines that are written to an input, with or without a newline behind the last one, are read from
it again. -/
theorem exists_lines {texts : List String} (h : ∀ text ∈ texts, '\n' ∉ text.toList ∧ text ≠ "")
    {input : String}
    (hinput : input = String.join (texts.map (· ++ "\n")) ∨ input = "\n".intercalate texts) :
    ∃ inputs : List String, lines input.toUTF8 = inputs.map String.toUTF8 ∧
      List.Forall₂ (fun text input => input = text ∨ input = text ++ "\n") texts inputs := by
  induction texts generalizing input with
  | nil =>
    have hempty : input = "" := hinput.elim id id
    exact ⟨[], by rw [hempty]; rfl, .nil⟩
  | cons text rest ih =>
    rw [List.forall_mem_cons] at h
    obtain ⟨⟨hline, hne⟩, hrest⟩ := h
    have hsplit : (input = text ∧ rest = []) ∨ ∃ input', input = text ++ "\n" ++ input' ∧
        (input' = String.join (rest.map (· ++ "\n")) ∨ input' = "\n".intercalate rest) := by
      obtain rfl | rfl := hinput
      · exact .inr ⟨_, by rw [List.map_cons, String.join_cons], .inl rfl⟩
      · cases rest with
        | nil => exact .inl ⟨String.intercalate_singleton, rfl⟩
        | cons next rest => exact .inr ⟨_, String.intercalate_cons_cons, .inr rfl⟩
    obtain ⟨rfl, rfl⟩ | ⟨input', rfl, hinput'⟩ := hsplit
    · exact ⟨[input], lines_of_last hline hne, .cons (.inl rfl) .nil⟩
    · obtain ⟨inputs, hlines, hinputs⟩ := ih hrest hinput'
      exact ⟨(text ++ "\n") :: inputs, by rw [lines_newline hline, hlines, List.map_cons],
        .cons (.inr rfl) hinputs⟩

end CommandLine

end EggLang
