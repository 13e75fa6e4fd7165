import EggLang.Proofs.Excerpt
import Mathlib.Logic.Function.Iterate

/-! Calls one after the other. However often a source or a stream is asked for the next token, it
answers from one finite list of tokens and one last answer, which are also what the text is cut
into. On the way, the text is only ever cut between two characters. -/

namespace EggLang

open Lexeme

/-- What the first `n` calls return, each of which is made in the state that the last one left. -/
def calls {σ α : Type} (step : σ → α × σ) : Nat → σ → List α
  | 0, _ => []
  | n + 1, s => (step s).1 :: calls step n (step s).2

section

variable {σ α : Type} {step : σ → α × σ}

theorem calls_congr {s s' : σ} (h : step s = step s') (n : Nat) :
    calls step n s = calls step n s' := by
  cases n with
  | zero => rfl
  | succ n => rw [calls, calls, h]

theorem calls_of_fixed {s : σ} {a : α} (h : step s = (a, s)) (n : Nat) :
    calls step n s = List.replicate n a := by
  induction n with
  | zero => rfl
  | succ n ih => rw [calls, h, ih, List.replicate_succ]

/-- The first `n` elements of a list that goes on with `last` for ever. -/
theorem take_append_replicate (as : List α) (last : α) (n : Nat) :
    (as ++ List.replicate n last).take n = as.take n ++ List.replicate (n - as.length) last := by
  rw [List.take_append, List.take_replicate, Nat.min_eq_left (Nat.sub_le n as.length)]

end

/-! ### What the calls return -/

namespace TokenStream

variable {s m : Source} {t : Token} {last : Except LexError Token}

theorem next_congr {s' : Source} (h : s.next = s'.next) : next ⟨s, false⟩ = next ⟨s', false⟩ := by
  simp [next, h]

theorem next_of_token (h : s.next = (.ok t, m)) (hkind : t.kind ≠ .endOfFile) :
    next ⟨s, false⟩ = (some (.ok t), ⟨m, false⟩) := by
  simp [next, h, hkind]

theorem next_of_last (h : s.next = (last, m)) (hkind : ∀ t, last = .ok t → t.kind = .endOfFile) :
    next ⟨s, false⟩ = (some last, ⟨m, true⟩) := by
  cases last with
  | ok t => simp [next, h, hkind t rfl]
  | error e => simp [next, h]

end TokenStream

namespace Source

/-- Where no lexeme starts, every call returns the same thing and reads nothing. -/
theorem exists_last {s : Source} (h : recognize? s.rest = none) :
    ∃ last, s.next = (last, s) ∧ s.tokens = last.map ([·]) ∧
      (last = .ok (.endOfFile s.position) ∧ s.rest = [] ∨ ∃ e, last = .error e) := by
  cases hs : s.rest with
  | nil => exact ⟨_, next_of_nil hs, tokens_of_last (next_of_nil hs) rfl, .inl ⟨rfl, rfl⟩⟩
  | cons c cs =>
    have hnext := next_of_unrecognized hs h
    refine ⟨_, hnext, ?_, .inr ⟨_, rfl⟩⟩
    rw [tokens.eq_def, hnext]
    rfl

namespace Scans

variable {s s' : Source} {ts : List Token} {last : Except LexError Token}

theorem kind_ne (h : s.Scans ts s') : ∀ t ∈ ts, t.kind ≠ .endOfFile := by
  induction h with
  | refl => exact nofun
  | token hr _ ih => exact List.forall_mem_cons.mpr ⟨kind_of_recognize? hr, ih⟩
  | gap _ _ _ ih => exact ih

/-- The calls go through the tokens and stay where the tokens end. -/
theorem calls_next (h : s.Scans ts s') (hlast : s'.next = (last, s')) (n : Nat) :
    calls next n s = (ts.map Except.ok ++ List.replicate n last).take n := by
  rw [take_append_replicate, List.length_map]
  induction h generalizing n with
  | refl => simpa using calls_of_fixed hlast n
  | token hr _ ih =>
    cases n with
    | zero => simp [calls]
    | succ n =>
      rw [calls, next_of_token hr, ih hlast]
      simp
  | gap hr hlexeme _ ih => rw [calls_congr (next_of_gap hr hlexeme), ih hlast]

/-- The calls go through the tokens and what is there instead of a further one, and then return
nothing. -/
theorem calls_stream_next (h : s.Scans ts s') (hlast : s'.next = (last, s'))
    (hkind : ∀ t, last = .ok t → t.kind = .endOfFile) (n : Nat) :
    calls TokenStream.next n ⟨s, false⟩ =
      ((ts.map Except.ok ++ [last]).map some ++ List.replicate n none).take n := by
  rw [take_append_replicate, List.length_map]
  induction h generalizing n with
  | @refl s =>
    have hfinished : TokenStream.next ⟨s, true⟩ = (none, ⟨s, true⟩) := rfl
    cases n with
    | zero => simp [calls]
    | succ n =>
      rw [calls, TokenStream.next_of_last hlast hkind, calls_of_fixed hfinished]
      simp
  | token hr _ ih =>
    cases n with
    | zero => simp [calls]
    | succ n =>
      rw [calls, TokenStream.next_of_token (next_of_token hr) (kind_of_recognize? hr), ih hlast]
      simp
  | gap hr hlexeme _ ih =>
    rw [calls_congr (TokenStream.next_congr (next_of_gap hr hlexeme)), ih hlast]

end Scans

end Source

/-! ### Where the text is cut -/

/-- The word in quotes `cs` has whole characters between its first byte and its last one, which are
the text of a string. -/
structure Unquoted (cs : List Char) : Prop where
  le : 1 ≤ (String.ofList cs).utf8ByteSize - 1
  start : String.Pos.Raw.IsValid (.ofList cs) ⟨1⟩
  stop : String.Pos.Raw.IsValid (.ofList cs) ⟨(String.ofList cs).utf8ByteSize - 1⟩
  text : (String.ofList cs).toUTF8.extract 1 ((String.ofList cs).utf8ByteSize - 1) =
    (tokenText .string cs).toUTF8

namespace Source

/-- The places at which one call of `next` looks at the text, each behind one more gap. -/
inductive Looks : Source → Source → Prop
  | here {s : Source} : Looks s s
  | behind {s m : Source} {lexeme : Lexeme} {n : Nat} : recognize? s.rest = some (lexeme, n) →
      lexeme = .blank ∨ lexeme = .comment → Looks (s.skip n) m → Looks s m

/-- At this place in `text`, what is cut off are whole characters: the text that is left, and a
string without its quotes. -/
structure Cut (text : String) (s : Source) : Prop where
  isValid : String.Pos.Raw.IsValid text ⟨s.position.offset⟩
  rest : text.toUTF8.extract s.position.offset text.utf8ByteSize = (String.ofList s.rest).toUTF8
  unquoted : ∀ n, recognize? s.rest = some (.token .string, n) → Unquoted (s.rest.take n)

/-! ### All calls -/

theorem isValid_behind {text : String} {before after : List Char}
    (h : text.toList = before ++ after) :
    String.Pos.Raw.IsValid text ⟨(Position.behind before).offset⟩ := by
  refine String.Pos.Raw.isValid_iff_exists_append.mpr ⟨.ofList before, .ofList after, ?_, rfl⟩
  rw [← String.ofList_append, ← h, String.ofList_toList]

theorem unquoted_of_spells {cs : List Char} (h : Spells .string cs) : Unquoted cs := by
  cases h with
  | @string inside _ =>
    have hfirst : (Position.behind ['"']).offset = 1 := by decide
    have hlast : (Position.behind ('"' :: inside)).offset =
        (String.ofList ('"' :: inside ++ ['"'])).utf8ByteSize - 1 := by
      have hsize := Position.offset_behind_append ('"' :: inside) ['"']
      have hquote : (String.ofList ['"']).utf8ByteSize = 1 := by decide
      show _ = (Position.behind ('"' :: inside ++ ['"'])).offset - 1
      omega
    have hle := Position.offset_le_behind ['"'] inside
    rw [List.singleton_append, hfirst, hlast] at hle
    have hword : (String.ofList ('"' :: inside ++ ['"'])).toList = ['"'] ++ inside ++ ['"'] := by
      simp
    have hstart := isValid_behind (hword.trans (List.append_assoc ..))
    have hstop := isValid_behind hword
    have hbytes := Position.extract_behind hword
    rw [hfirst] at hstart hbytes
    rw [List.singleton_append, hlast] at hstop hbytes
    refine ⟨hle, hstart, hstop, ?_⟩
    simpa [tokenText] using hbytes

theorem Scans.cut {text : String} {ts : List Token} {s : Source}
    (h : (ofString text).Scans ts s) : s.Cut text := by
  obtain ⟨before, htext, hposition⟩ := h.exists_before
  have hsize : text.utf8ByteSize = (Position.behind (before ++ s.rest)).offset := by
    rw [← htext, Position.behind, String.ofList_toList]
  refine ⟨hposition ▸ isValid_behind htext, ?_, fun n hr =>
    unquoted_of_spells (spells_of_recognize? hr)⟩
  have hall : text.toList = before ++ s.rest ++ [] := by simpa using htext
  rw [hsize, hposition]
  exact Position.extract_behind hall

theorem exists_scans_next (s : Source) : ∃ ts, s.Scans ts s.next.2 := by
  fun_induction next s with
  | case1 | case2 => exact ⟨[], .refl⟩
  | case3 s c cs hs kind n hr text => exact ⟨_, .token hr .refl⟩
  | case4 s c cs hs n hr ih =>
    obtain ⟨ts, hts⟩ := ih
    exact ⟨ts, .gap hr (.inl rfl) hts⟩
  | case5 s c cs hs n hr ih =>
    obtain ⟨ts, hts⟩ := ih
    exact ⟨ts, .gap hr (.inr rfl) hts⟩

theorem exists_scans_iterate (s : Source) (n : Nat) :
    ∃ ts, s.Scans ts ((fun s => s.next.2)^[n] s) := by
  induction n generalizing s with
  | zero => exact ⟨[], .refl⟩
  | succ n ih =>
    obtain ⟨ts, hts⟩ := s.exists_scans_next
    obtain ⟨us, hus⟩ := ih s.next.2
    exact ⟨ts ++ us, hts.trans hus⟩

theorem Looks.scans {s m : Source} (h : s.Looks m) : s.Scans [] m := by
  induction h with
  | here => exact .refl
  | behind hr hlexeme _ ih => exact .gap hr hlexeme ih

end Source

theorem TokenStream.source_next (s : TokenStream) :
    s.next.2.source = s.source ∨ s.next.2.source = s.source.next.2 := by
  fun_cases next s with
  | case1 => exact .inl rfl
  | case2 _ t after hnext => exact .inr (by rw [hnext])
  | case3 _ e after hnext => exact .inr (by rw [hnext])

/-- A stream is at a place to which calls of `Source.next` lead. -/
theorem TokenStream.exists_iterate (s : TokenStream) (n : Nat) :
    ∃ k, ((fun s => s.next.2)^[n] s).source = (fun s => s.next.2)^[k] s.source := by
  induction n generalizing s with
  | zero => exact ⟨0, rfl⟩
  | succ n ih =>
    obtain ⟨k, hk⟩ := ih s.next.2
    rcases s.source_next with hsource | hsource
    · exact ⟨k, by rw [Function.iterate_succ_apply, hk, hsource]⟩
    · exact ⟨k + 1, by rw [Function.iterate_succ_apply, hk, hsource]; rfl⟩

/-- Every text has tokens and a last answer, which is the token `endOfFile` at its end or an error,
so that any number of calls of `Source.next` return the tokens and then the last answer for ever.
Calls of `TokenStream.next` return the tokens, the last answer once and then nothing, and `tokenize`
returns all of them or the error. At every place where the calls look at the text, what they cut off
are whole characters. -/
theorem calls_of_text (text : String) :
    ∃ (ts : List Token) (last : Except LexError Token),
      (∀ t ∈ ts, t.kind ≠ .endOfFile) ∧
      (last = .ok (.endOfFile (.behind text.toList)) ∨ ∃ e, last = .error e) ∧
      (∀ n, calls Source.next n (.ofString text) =
        (ts.map Except.ok ++ List.replicate n last).take n) ∧
      (∀ n, calls TokenStream.next n (.ofString text) =
        ((ts.map Except.ok ++ [last]).map some ++ List.replicate n none).take n) ∧
      tokenize text = last.map (ts ++ [·]) ∧
      (∀ n m, ((fun s => s.next.2)^[n] (Source.ofString text)).Looks m → m.Cut text) ∧
      ∀ n m, ((fun s => s.next.2)^[n] (TokenStream.ofString text)).source.Looks m →
        m.Cut text := by
  obtain ⟨ts, s, hscans, hnone⟩ := (Source.ofString text).exists_scans
  obtain ⟨last, hnext, htokens, hlast⟩ := Source.exists_last hnone
  have hend : last = .ok (.endOfFile (.behind text.toList)) ∨ ∃ e, last = .error e := by
    refine hlast.imp_left fun ⟨hend, hrest⟩ => ?_
    obtain ⟨before, htext, hposition⟩ := hscans.exists_before
    rw [hend, hposition, htext, hrest, List.append_nil]
  have hkind : ∀ t, last = .ok t → t.kind = .endOfFile := by
    rintro t rfl
    obtain hend | ⟨e, he⟩ := hend
    · cases hend
      rfl
    · cases he
  have hcut (n m) (h : ((fun s => s.next.2)^[n] (Source.ofString text)).Looks m) :
      m.Cut text := by
    obtain ⟨us, hus⟩ := (Source.ofString text).exists_scans_iterate n
    exact (hus.trans h.scans).cut
  refine ⟨ts, last, hscans.kind_ne, hend, hscans.calls_next hnext,
    hscans.calls_stream_next hnext hkind, ?_, hcut, fun n m h => ?_⟩
  · rw [tokenize, hscans.tokens_eq, htokens]
    cases last <;> rfl
  · obtain ⟨k, hk⟩ := (TokenStream.ofString text).exists_iterate n
    rw [hk] at h
    exact hcut k m h

/-- A text with a character of two bytes, of which the second call passes over a comment before it
fails. -/
theorem calls_of_text_at_point :
    ((fun s => s.next.2)^[1] (Source.ofString "\"å\"/**/.")).Looks ⟨⟨8, 1, 8⟩, ['.']⟩ ∧
      Source.Cut "\"å\"/**/." ⟨⟨8, 1, 8⟩, ['.']⟩ := by
  have hstring : recognize? (Source.ofString "\"å\"/**/.").rest = some (.token .string, 3) := by
    decide +kernel
  have hcomment : recognize? ((Source.ofString "\"å\"/**/.").skip 3).rest =
      some (.comment, 4) := by decide +kernel
  have hlooks : ((fun s => s.next.2)^[1] (Source.ofString "\"å\"/**/.")).Looks
      ⟨⟨8, 1, 8⟩, ['.']⟩ := by
    rw [Function.iterate_one, Source.next_of_token hstring]
    exact .behind hcomment (.inr rfl) .here
  obtain ⟨_, _, -, -, -, -, -, hcut, -⟩ := calls_of_text "\"å\"/**/."
  exact ⟨hlooks, hcut 1 _ hlooks⟩

end EggLang
