import EggLang.Proofs.Computed
import EggLang.Proofs.Concatenation
import EggLang.Proofs.Spans
import EggLang.Proofs.Unambiguous

/-! Values written back as source. A string without quotes in it, a boolean and a finite number have
a text that is an expression with that value, and no run ever comes by a string with a quote in
it. -/

namespace EggLang

open Lexeme

/-- The text of the value, in quotes if it is a string, is an expression with that value. -/
def Value.ReadsBack (v : Value) : Prop :=
  ∃ e, parseExpression (Expr.literalText v) = .ok e ∧ evaluateAlone e = .ok v

/-- The value is a finite number or a boolean, or a string that quotes can be put around. -/
def Value.Writable : Value → Prop
  | number x => x.isFinite = true
  | string s => '"' ∉ s.toList
  | boolean _ => True

/-- No quote stands in the value, if it is a string. -/
def Value.Unquoted : Value → Prop
  | string s => '"' ∉ s.toList
  | _ => True

/-! ### Texts of values as tokens -/

theorem Number.Numeral.spells {cs : List Char} {value places : Nat} (h : Numeral cs value places)
    (hwhole : places = 0 → ∀ c ∈ cs, c.isDigit = true) : Spells .number cs := by
  cases h with
  | whole hne hdigits => exact .whole hne hdigits
  | point _ hdigits hfraction =>
    refine .fraction hdigits ?_ hfraction
    rintro rfl
    exact absurd (hwhole rfl '.' (by simp)) (by decide)

theorem spells_magnitudeText {m : Nat} (h : m < Number.infiniteMagnitude) :
    Spells .number (Number.magnitudeText m) := by
  obtain ⟨value, places, hnumeral, hwhole, -⟩ := Number.exists_numeral h
  exact hnumeral.spells hwhole

/-- What spells a token is read as that token, to the end. -/
theorem scans_of_spells {kind : TokenKind} {w : List Char} (h : Spells kind w) (p : Position) :
    ∃ s' span, Source.Scans ⟨p, w⟩ [⟨kind, tokenText kind w, span⟩] s' ∧ s'.rest = [] := by
  have hr : recognize? (Source.rest ⟨p, w⟩) = some (.token kind, w.length) :=
    recognize?_of_spells h
  have hscans := Source.Scans.token hr .refl
  rw [List.take_length] at hscans
  exact ⟨_, _, hscans, List.drop_length⟩

theorem cutInto_of_spells {kind : TokenKind} {w : List Char} (h : Spells kind w) :
    ∃ span, CutInto (.ofList w) [⟨kind, tokenText kind w, span⟩] := by
  obtain ⟨s', span, hscans, hrest⟩ := scans_of_spells h .start
  exact ⟨span, hscans.cutInto (by rw [hrest, List.append_nil])⟩

/-- A sign and what it stands before are two tokens. -/
theorem cutInto_of_minus {kind : TokenKind} {w : List Char} (h : Spells kind w) :
    ∃ span span', CutInto (.ofList ('-' :: w))
      [⟨.operator, "-", span⟩, ⟨kind, tokenText kind w, span'⟩] := by
  have hr : recognize? (Source.rest ⟨.start, '-' :: w⟩) = some (.token .operator, 1) :=
    recognize?_of_minus
  obtain ⟨s', span, hscans, hrest⟩ := scans_of_spells h (Source.skip ⟨.start, '-' :: w⟩ 1).position
  exact ⟨_, span, (Source.Scans.token hr hscans).cutInto (by rw [hrest, List.append_nil])⟩

/-! ### Reading values back -/

/-- An expression has the value that its tree without spans has. -/
theorem readsBack_of_derives {v : Value} {ts : List Token} {n : Grammar.Nonterminal} {e : Expr}
    (hcut : CutInto (Expr.literalText v) ts) (h : Grammar.Derives n ts e)
    (hvalue : evaluateAlone e = .ok v) : v.ReadsBack := by
  have hexpression : Grammar.Derives .expression ts e := h.loosen (Nat.zero_le _)
  obtain ⟨e', hparse, rfl⟩ := (hcut.parseExpression_iff h.kind_ne).mpr hexpression
  refine ⟨e', hparse, ?_⟩
  rwa [evaluateAlone, Expr.bare, Expr.evaluate_mapSpans] at hvalue

theorem readsBack_string {s : String} (h : '"' ∉ s.toList) : (Value.string s).ReadsBack := by
  obtain ⟨span, hcut⟩ := cutInto_of_spells (.string h)
  have htext : Expr.literalText (.string s) = .ofList ('"' :: s.toList ++ ['"']) := by
    rw [← String.toList_inj]
    simp [Expr.literalText, toString]
  have hinside : tokenText .string ('"' :: s.toList ++ ['"']) = s := by
    simp [tokenText]
  rw [← htext] at hcut
  refine readsBack_of_derives hcut (.string rfl) ?_
  rw [hinside]
  rfl

theorem readsBack_boolean (b : Bool) : (Value.boolean b).ReadsBack := by
  have hword : Value.booleanText b ∈ freeKeywords := by
    cases b <;> decide
  obtain ⟨span, hcut⟩ := cutInto_of_spells (.freeKeyword hword)
  rw [String.ofList_toList] at hcut
  exact readsBack_of_derives hcut (.boolean (b := b) (by simp [Token.is, tokenText])) rfl

/-- A number with a sign comes back as the negation of one without. -/
theorem readsBack_number {x : Number} (h : x.isFinite = true) : (Value.number x).ReadsBack := by
  have hlt : x.magnitude < Number.infiniteMagnitude := of_decide_eq_true h
  have hspells := spells_magnitudeText hlt
  have hread := Number.read?_magnitudeText hlt
  have htext := Number.text_of_isFinite h
  cases hsign : x.isNegative with
  | false =>
    rw [hsign, if_neg Bool.false_ne_true, List.nil_append] at htext
    obtain ⟨span, hcut⟩ := cutInto_of_spells hspells
    rw [← htext, String.ofList_toList] at hcut
    rw [Number.ofMagnitude_magnitude hsign] at hread
    exact readsBack_of_derives hcut (.number rfl (htext ▸ hread)) rfl
  | true =>
    rw [hsign, if_pos rfl, List.singleton_append] at htext
    obtain ⟨span, span', hcut⟩ := cutInto_of_minus hspells
    rw [← htext, String.ofList_toList] at hcut
    have hnumber := Grammar.Derives.number (t := ⟨.number, _, span'⟩) rfl hread
    have hminus : Token.is ⟨.operator, "-", span⟩ .operator UnaryOp.negate.symbol = true := rfl
    refine readsBack_of_derives hcut (.unary hminus (hnumber.loosen (by decide))) ?_
    exact congrArg (Except.ok <| Value.number ·) (Number.neg_ofMagnitude_magnitude hsign)

theorem Value.Writable.readsBack {v : Value} (h : v.Writable) : v.ReadsBack := by
  cases v with
  | number x => exact readsBack_number h
  | string s => exact readsBack_string h
  | boolean b => exact readsBack_boolean b

/-! ### Values without quotes -/

theorem given_unquoted : Value.Given Value.Unquoted := ⟨fun _ => trivial, trivial⟩

theorem BinaryOp.unquoted_of_onNumbers? {op : BinaryOp} {x y : Number} {v : Value}
    (h : op.onNumbers? x y = some v) : v.Unquoted := by
  cases op <;> cases h <;> trivial

theorem BinaryOp.unquoted_of_onStrings? {op : BinaryOp} {s t : String} {v : Value}
    (hs : '"' ∉ s.toList) (ht : '"' ∉ t.toList) (h : op.onStrings? s t = some v) :
    v.Unquoted := by
  cases op <;> cases h
  case add => simpa [Value.Unquoted] using ⟨hs, ht⟩
  all_goals trivial

theorem BinaryOp.unquoted_of_onBooleans? {op : BinaryOp} {a b : Bool} {v : Value}
    (h : op.onBooleans? a b = some v) : v.Unquoted := by
  cases op <;> cases h <;> trivial

theorem kept_unquoted : Value.Kept Value.Unquoted where
  unary {op v w} _ h := by
    cases op <;> cases v <;> cases h <;> trivial
  binary {op v w u} hv hw h := by
    rw [BinaryOp.apply] at h
    cases hon : op.on? v w with
    | none =>
      rw [hon] at h
      cases h
    | some r =>
      rw [hon] at h
      cases h
      cases v <;> cases w
      case number.number x y => exact BinaryOp.unquoted_of_onNumbers? hon
      case string.string s t => exact BinaryOp.unquoted_of_onStrings? hv hw hon
      case boolean.boolean a b => exact BinaryOp.unquoted_of_onBooleans? hon
      all_goals cases hon

/-- A string in the text of a program ends at the first quote. -/
theorem leaves_unquoted_of_parseProgram {text : String} {body : List Stmt}
    (h : parseProgram text = .ok body) : ∀ s ∈ body, s.Leaves IsName Value.Unquoted := by
  refine (leaves_of_parse given_unquoted fun ts hts t ht => ?_).1 body h
  have hstands := (spelled_of_standIn hts t ht).stands
  exact ⟨hstands.name, fun _ _ _ => trivial, hstands.string⟩

/-- Values that quotes can be put around or that need none are written back as source. In the run of
a program every string is such a value, so that no more is asked of its values than to be finite. -/
theorem values_written_back :
    (∀ v : Value, v.Writable → v.ReadsBack) ∧
      ∀ text body capacity v, parseProgram text = .ok body →
        Stmt.Arises body (.initial capacity) v →
        (∀ s, v = .string s → '"' ∉ s.toList) ∧
          ((∀ x, v = .number x → x.isFinite = true) → v.ReadsBack) := by
  refine ⟨fun v => Value.Writable.readsBack, fun text body capacity v hparse harises => ?_⟩
  have hleaves := leaves_unquoted_of_parseProgram hparse
  have hunquoted : v.Unquoted := harises.holds kept_unquoted hleaves .empty
  refine ⟨?_, fun hfinite => Value.Writable.readsBack ?_⟩
  · rintro s rfl
    exact hunquoted
  · cases v with
    | number x => exact hfinite x rfl
    | string s => exact hunquoted
    | boolean b => trivial

/-- Minus one, and a string over two lines that a program joins. -/
theorem values_written_back_of_joined :
    (Value.number (-Number.one)).ReadsBack ∧
      ∃ body, parseProgram "string s = \"/*\n\"; print(s + \"//\");" = .ok body ∧
        Stmt.Arises body (.initial none) (.string "/*\n//") ∧
        '"' ∉ "/*\n//".toList ∧ (Value.string "/*\n//").ReadsBack := by
  have hparse : (parseProgram "string s = \"/*\n\"; print(s + \"//\");").isOk = true := by
    decide +kernel
  have hprinted : ∀ body ∈ (parseProgram "string s = \"/*\n\"; print(s + \"//\");").toOption,
      .string "/*\n//" ∈ Stmt.transcriptAll body (.initial none) := by
    decide +kernel
  obtain ⟨body, hbody⟩ := exists_of_isOk hparse
  have harises : Stmt.Arises body (.initial none) (.string "/*\n//") :=
    .printed (hprinted body (by rw [hbody]; rfl))
  obtain ⟨hinside, hback⟩ := values_written_back.2 _ body none _ hbody harises
  have hfinite : (-Number.one).isFinite = true := by decide +kernel
  exact ⟨values_written_back.1 _ hfinite, body, hbody, harises, hinside _ rfl, hback (by simp)⟩

end EggLang
