import EggLang.Proofs.Bare
import EggLang.Proofs.Maximal

/-! Excerpts of a text: what a span covers. Where the span goes from the start of one token to the
end of another, the excerpt is cut by itself into the tokens that stand there, though at other
places. -/

namespace EggLang

open Lexeme

/-! ### What a span covers -/

/-- The span is the place of `part` in `text`. -/
def Span.Covers (text part : String) (s : Span) : Prop :=
  ∃ before after : String, text = before ++ part ++ after ∧
    s = ⟨.behind before.toList, .behind (before ++ part).toList⟩

namespace Span.Covers

variable {text part : String} {s : Span}

theorem of_lists {before cs after : List Char} (h : text.toList = before ++ cs ++ after) :
    Covers text (.ofList cs) ⟨.behind before, .behind (before ++ cs)⟩ := by
  refine ⟨.ofList before, .ofList after, ?_, by simp⟩
  rw [← String.ofList_append, ← String.ofList_append, ← h, String.ofList_toList]

/-- The bytes at a span are those of what it covers. -/
theorem extract (h : s.Covers text part) :
    text.toUTF8.extract s.start.offset s.stop.offset = part.toUTF8 := by
  obtain ⟨before, after, rfl, rfl⟩ := h
  have htext : (before ++ part ++ after).toList = before.toList ++ part.toList ++ after.toList := by
    rw [String.toList_append, String.toList_append]
  have hbytes := Position.extract_behind htext
  rwa [String.ofList_toList, ← String.toList_append] at hbytes

/-- Lines count from one. -/
theorem ne_nowhere (h : s.Covers text part) : s ≠ .nowhere := by
  obtain ⟨before, after, -, rfl⟩ := h
  intro hnowhere
  have hline := congrArg (·.start.line) hnowhere
  simp [Position.behind, Span.nowhere] at hline

end Span.Covers

/-- Every token has its place, the token `endOfFile` behind all of the text. -/
theorem covers_of_tokenize {text : String} {ts : List Token} (h : tokenize text = .ok ts)
    {t : Token} (ht : t ∈ ts) : ∃ part, t.span.Covers text part := by
  have hlayout : Layout [] ts text.toList := Source.layout_of_tokens Position.behind_nil.symm h
  by_cases hkind : t.kind = .endOfFile
  · obtain ⟨init, rfl, hinit⟩ := hlayout.exists_init
    rcases List.mem_append.mp ht with ht | ht
    · exact absurd hkind (hinit t ht)
    · rw [List.mem_singleton.mp ht]
      exact ⟨"", text, "", by simp, by simp [Token.endOfFile, Span.empty]⟩
  · obtain ⟨front, word, rest, htext, -, -, hspan⟩ := hlayout.exists_word ht hkind
    exact ⟨.ofList word, hspan ▸ .of_lists htext⟩

/-! ### Tokens one behind the other -/

/-- The span goes from the first of the tokens to the last one. -/
def Spans (ts : List Token) (s : Span) : Prop :=
  ∃ t ∈ ts.head?, ∃ u ∈ ts.getLast?, s = ⟨t.span.start, u.span.stop⟩

/-- Tokens that are not empty stand one behind the other. -/
structure Successive (ts : List Token) : Prop where
  pos : ∀ t ∈ ts, t.span.start.offset < t.span.stop.offset
  ordered : ts.Pairwise fun t u => t.span.stop.offset ≤ u.span.start.offset

theorem Span.join_self (s : Span) : s.join s = s := by
  obtain ⟨start, stop⟩ := s
  rw [join, mk.injEq]
  exact ⟨(start.earlier_eq start).elim id id, (stop.later_eq stop).elim id id⟩

theorem Span.join_of_lt {s t : Span} (hstart : s.start.offset < t.start.offset)
    (hstop : s.stop.offset < t.stop.offset) : s.join t = ⟨s.start, t.stop⟩ := by
  rw [join, Position.earlier, Position.later, (Position.compare_of_lt hstart).2,
    (Position.compare_of_lt hstop).2, if_neg (by decide), if_pos rfl]

theorem Spans.single (t : Token) : Spans [t] t.span := ⟨t, rfl, t, rfl, rfl⟩

namespace Successive

variable {ts us : List Token} {s : Span} {t u : Token}

theorem sublist (h : Successive us) (hts : ts.Sublist us) : Successive ts :=
  ⟨fun t ht => h.pos t (hts.subset ht), h.ordered.sublist hts⟩

/-- The span of a node that goes on with more tokens. -/
theorem spans_append (h : Successive (ts ++ us)) (hs : Spans ts s) (hu : u ∈ us.getLast?) :
    Spans (ts ++ us) (s.join u.span) := by
  obtain ⟨t, ht, v, hv, rfl⟩ := hs
  have htpos := h.pos t (List.mem_append_left _ (List.mem_of_mem_head? ht))
  have hupos := h.pos u (List.mem_append_right _ (List.mem_of_mem_getLast? hu))
  have hordered := (List.pairwise_append.mp h.ordered).2.2
  have htu := hordered t (List.mem_of_mem_head? ht) u (List.mem_of_mem_getLast? hu)
  have hvu := hordered v (List.mem_of_mem_getLast? hv) u (List.mem_of_mem_getLast? hu)
  refine ⟨t, ?_, u, ?_,
    Span.join_of_lt (Nat.lt_of_lt_of_le htpos htu) (Nat.lt_of_le_of_lt hvu hupos)⟩
  · rw [List.head?_append, ht]
    rfl
  · rw [List.getLast?_append, hu]
    rfl

/-- The span of a node that starts with the token `t`. -/
theorem spans_cons (h : Successive (t :: us)) (hu : u ∈ (t :: us).getLast?) :
    Spans (t :: us) (t.span.join u.span) := by
  cases us with
  | nil =>
    obtain rfl : t = u := by simpa using hu
    rw [Span.join_self]
    exact .single t
  | cons v vs =>
    have hone : Successive ([t] ++ v :: vs) := h
    exact hone.spans_append (.single t) (by simpa using hu)

end Successive

theorem successive_of_tokenize {text : String} {ts us : List Token} (h : tokenize text = .ok ts)
    (hus : us.Sublist ts) (hkind : ∀ t ∈ us, t.kind ≠ .endOfFile) : Successive us := by
  obtain ⟨-, ⟨init, rfl, hinit⟩, hordered⟩ := layout_of_tokenize h
  refine ⟨fun t ht => ?_, hordered.sublist hus⟩
  rcases List.mem_append.mp (hus.subset ht) with hmem | hlast
  · exact (hinit t hmem).2.1
  · exact absurd (by rw [List.mem_singleton.mp hlast]; rfl) (hkind t ht)

/-! ### Reading an excerpt -/

namespace Source.Scans

variable {s s' : Source} {ts us : List Token}

theorem trans {m : Source} (h : s.Scans ts m) (h' : m.Scans us s') : s.Scans (ts ++ us) s' := by
  induction h with
  | refl => exact h'
  | token hr _ ih => exact .token hr (ih h')
  | gap hr hlexeme _ ih => exact .gap hr hlexeme (ih h')

/-- Between two tokens there is a place right before the second one. -/
theorem exists_between (h : s.Scans (ts ++ us) s') :
    ∃ m, s.Scans ts m ∧ m.Scans us s' ∧ ∀ u ∈ us.head?, u.span.start = m.position := by
  generalize hall : ts ++ us = all at h
  induction h generalizing ts with
  | refl =>
    obtain ⟨rfl, rfl⟩ := List.append_eq_nil_iff.mp hall
    exact ⟨_, .refl, .refl, nofun⟩
  | token hr h ih =>
    cases ts with
    | nil =>
      obtain rfl : us = _ := hall
      exact ⟨_, .refl, .token hr h, by simp⟩
    | cons t ts =>
      obtain ⟨rfl, htail⟩ := List.cons.inj hall
      obtain ⟨m, hts, hus, hstart⟩ := ih htail
      exact ⟨m, .token hr hts, hus, hstart⟩
  | gap hr hlexeme _ ih =>
    obtain ⟨m, hts, hus, hstart⟩ := ih hall
    exact ⟨m, .gap hr hlexeme hts, hus, hstart⟩

/-- There is a place right behind the last of the tokens. -/
theorem exists_end (h : s.Scans ts s') :
    ∃ m, s.Scans ts m ∧ ∀ t ∈ ts.getLast?, t.span.stop = m.position := by
  induction h with
  | refl => exact ⟨_, .refl, nofun⟩
  | @token s s' ts kind n hr _ ih =>
    cases ts with
    | nil => exact ⟨_, .token hr .refl, by simp⟩
    | cons t ts =>
      obtain ⟨m, hts, hstop⟩ := ih
      exact ⟨m, .token hr hts, by simpa using hstop⟩
  | gap hr hlexeme _ ih =>
    obtain ⟨m, hts, hstop⟩ := ih
    exact ⟨m, .gap hr hlexeme hts, hstop⟩

/-- Reading does not depend on the place where a text starts. -/
theorem elsewhere (h : s.Scans ts s') (p : Position) : ∃ us q,
    Scans ⟨p, s.rest⟩ us ⟨q, s'.rest⟩ ∧ us.map Token.bare = ts.map Token.bare := by
  induction h generalizing p with
  | refl => exact ⟨[], p, .refl, rfl⟩
  | token hr _ ih =>
    obtain ⟨us, q, hus, hbare⟩ := ih (skip ⟨p, _⟩ _).position
    exact ⟨_, q, .token (s := ⟨p, _⟩) hr hus, by rw [List.map_cons, hbare]; rfl⟩
  | gap hr hlexeme _ ih =>
    obtain ⟨us, q, hus, hbare⟩ := ih (skip ⟨p, _⟩ _).position
    exact ⟨us, q, .gap (s := ⟨p, _⟩) hr hlexeme hus, hbare⟩

end Source.Scans

/-- The text is cut into the tokens, wherever they stand in it. -/
def CutInto (text : String) (ts : List Token) : Prop :=
  ∃ us, tokenize text = .ok us ∧ us.map Token.bare = ts.map Token.bare ++ [.ofText .endOfFile ""]

/-- The text between two places that reading leads to is cut by itself into the tokens there. -/
theorem Source.Scans.cutInto {s s' : Source} {ts : List Token} (h : s.Scans ts s')
    {part : List Char} (hpart : s.rest = part ++ s'.rest) : CutInto (.ofList part) ts := by
  obtain ⟨us, q, hscans, hbare⟩ := (h.truncate hpart).elsewhere .start
  have htokens : tokenize (.ofList part) = .ok (us ++ [.endOfFile q]) := by
    rw [tokenize, ofString, String.toList_ofList]
    exact hscans.tokens_of_end
  exact ⟨_, htokens, by rw [List.map_append, hbare]; rfl⟩

/-- The tokens of a text before its end are read on the way to what stands behind them. -/
theorem scans_of_tokenize {text : String} {ts us : List Token} (h : tokenize text = .ok (ts ++ us))
    (hkind : ∀ t ∈ ts, t.kind ≠ .endOfFile) : ∃ s, (Source.ofString text).Scans ts s := by
  obtain ⟨init, s, hscans, heq⟩ := Source.exists_scans_of_tokens h
  rcases List.eq_nil_or_concat us with rfl | ⟨us, e, rfl⟩
  · rw [List.append_nil] at heq
    exact absurd rfl (hkind _ (heq ▸ List.mem_append_right _ List.mem_cons_self))
  · rw [List.concat_eq_append, ← List.append_assoc] at heq
    obtain ⟨rfl, -⟩ := List.append_inj' heq rfl
    obtain ⟨m, hm, -⟩ := hscans.exists_between
    exact ⟨m, hm⟩

/-- Where the tokens of a text stand in it that a span goes over, and what text the tokens `ls`
right before them make up. -/
theorem exists_excerpt {text : String} {pre ls us post : List Token} {s : Span}
    (h : tokenize text = .ok (pre ++ (ls ++ us) ++ post))
    (hkind : ∀ t ∈ pre ++ (ls ++ us), t.kind ≠ .endOfFile) (hs : Spans us s) :
    ∃ before opening part after : String, text = before ++ opening ++ part ++ after ∧
      s = ⟨.behind (before ++ opening).toList, .behind (before ++ opening ++ part).toList⟩ ∧
      CutInto opening ls ∧ CutInto part us ∧ CutInto (opening ++ part) (ls ++ us) ∧
      (ls = [] → opening = "") := by
  obtain ⟨e, hscans⟩ := scans_of_tokenize h hkind
  obtain ⟨k, hpre, hmid, -⟩ := hscans.exists_between
  obtain ⟨m, hls, hus, hstart⟩ := hmid.exists_between
  obtain ⟨e, hus, hstop⟩ := hus.exists_end
  obtain ⟨k, hpre, hls, hnil⟩ : ∃ k, (Source.ofString text).Scans pre k ∧ k.Scans ls m ∧
      (ls = [] → k = m) := by
    cases ls with
    | nil => exact ⟨m, by simpa using hpre.trans hls, .refl, fun _ => rfl⟩
    | cons t ts => exact ⟨k, hpre, hls, nofun⟩
  obtain ⟨before, htext, hbefore⟩ := hpre.exists_before
  obtain ⟨opening, hopening, hm⟩ := hls.exists_text
  obtain ⟨part, hpart, he⟩ := hus.exists_text
  refine ⟨.ofList before, .ofList opening, .ofList part, .ofList e.rest, ?_, ?_,
    hls.cutInto hopening, hus.cutInto hpart, ?_, fun hempty => ?_⟩
  · rw [← String.ofList_append, ← String.ofList_append, ← String.ofList_append, List.append_assoc,
      List.append_assoc, ← hpart, ← hopening, ← htext, String.ofList_toList]
  · obtain ⟨t, ht, u, hu, rfl⟩ := hs
    rw [hstart t ht, hstop u hu, he, hm, hbefore, Position.advance_behind, Position.advance_behind]
    simp
  · rw [← String.ofList_append]
    refine (hls.trans hus).cutInto ?_
    rw [List.append_assoc, ← hpart, hopening]
  · rw [hnil hempty] at hopening
    rw [List.append_left_eq_self.mp hopening.symm]

/-- A span that goes over tokens of a text covers a part that is cut into them. -/
theorem covers_of_spans {text : String} {pre us post : List Token} {s : Span}
    (h : tokenize text = .ok (pre ++ us ++ post)) (hkind : ∀ t ∈ pre ++ us, t.kind ≠ .endOfFile)
    (hs : Spans us s) : ∃ part, s.Covers text part ∧ CutInto part us := by
  have hnil : tokenize text = .ok (pre ++ ([] ++ us) ++ post) := h
  obtain ⟨before, opening, part, after, htext, hspan, -, hpart, -⟩ := exists_excerpt hnil hkind hs
  exact ⟨part, ⟨before ++ opening, after, htext, hspan⟩, hpart⟩

end EggLang
