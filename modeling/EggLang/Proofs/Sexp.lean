import EggLang.Tree

/-! S-expressions, which trees are shown as. Words are delimited by spaces and parentheses, and
quoted text by its quotes, so that a text is one S-expression at most. Trees are shown as such
S-expressions, without their spans. -/

namespace EggLang

/-- An S-expression: a word, quoted text, or a word with S-expressions behind it in parentheses. -/
inductive Sexp
  | word (text : String)
  | quoted (text : String)
  | node (head : String) (items : List Sexp)

namespace Sexp

mutual

def render : Sexp → List Char
  | word text => text.toList
  | quoted text => '"' :: text.toList ++ ['"']
  | node head items => '(' :: head.toList ++ renderAll items ++ [')']

/-- S-expressions, each after a space. -/
def renderAll : List Sexp → List Char
  | [] => []
  | x :: rest => ' ' :: x.render ++ renderAll rest

end

def delimiters : List Char := [' ', '(', ')', '"']

def delimits (c : Char) : Bool := delimiters.contains c

/-- The text is one word. -/
def Plain (text : String) : Prop := text ≠ "" ∧ ∀ c ∈ text.toList, delimits c = false

instance (text : String) : Decidable (Plain text) :=
  decidable_of_iff (text ≠ "" ∧ text.toList.any delimits = false) (by simp [Plain])

theorem plain_of_forall {p : Char → Bool} {text : String} (hp : delimiters.any p = false)
    (hne : text.toList ≠ []) (htext : ∀ c ∈ text.toList, p c = true) : Plain text := by
  refine ⟨fun hempty => hne (by rw [hempty]; rfl), fun c hc => ?_⟩
  refine Bool.eq_false_iff.mpr fun hdelimits => ?_
  rw [delimits, List.contains_iff_mem] at hdelimits
  exact List.any_eq_false.mp hp c hdelimits (htext c hc)

inductive WellFormed : Sexp → Prop
  | word {text : String} : Plain text → WellFormed (word text)
  | quoted {text : String} : '"' ∉ text.toList → WellFormed (quoted text)
  | node {head : String} {items : List Sexp} : Plain head → (∀ x ∈ items, WellFormed x) →
      WellFormed (node head items)

/-! ### A text is one S-expression at most -/

/-- A word ends where a delimiter follows, or nothing. -/
def Ends (rest : List Char) : Prop := ∀ c ∈ rest.head?, delimits c = true

theorem append_unique {p : Char → Bool} {cs cs' rest rest' : List Char}
    (hcs : ∀ c ∈ cs, p c = false) (hcs' : ∀ c ∈ cs', p c = false)
    (hrest : ∀ c ∈ rest.head?, p c = true) (hrest' : ∀ c ∈ rest'.head?, p c = true)
    (h : cs ++ rest = cs' ++ rest') : cs = cs' ∧ rest = rest' := by
  have htake : ∀ {cs rest : List Char}, (∀ c ∈ cs, p c = false) →
      (∀ c ∈ rest.head?, p c = true) → (cs ++ rest).takeWhile (!p ·) = cs := by
    intro cs rest hcs hrest
    rw [List.takeWhile_append_of_pos (by simpa using hcs)]
    cases rest with
    | nil => simp
    | cons c rest => simp [hrest c rfl]
  obtain rfl : cs = cs' := by rw [← htake hcs hrest, h, htake hcs' hrest']
  exact ⟨rfl, List.append_cancel_left h⟩

theorem Plain.exists_head {text : String} (h : Plain text) :
    ∃ c rest, text.toList = c :: rest ∧ delimits c = false := by
  cases htext : text.toList with
  | nil => exact absurd (String.toList_inj.mp htext) h.1
  | cons c rest => exact ⟨c, rest, rfl, h.2 c (by simp [htext])⟩

theorem Plain.append_ne {text : String} (h : Plain text) {c : Char} (hc : delimits c = true)
    (rest rest' : List Char) : text.toList ++ rest ≠ c :: rest' := by
  obtain ⟨d, ds, htext, hd⟩ := h.exists_head
  rw [htext]
  rintro heq
  rw [(List.cons.inj heq).1, hc] at hd
  exact nomatch hd

theorem render_quoted_append (text : String) (rest : List Char) :
    (quoted text).render ++ rest = '"' :: (text.toList ++ '"' :: rest) := by
  simp [render]

theorem render_node_append (head : String) (items : List Sexp) (rest : List Char) :
    (node head items).render ++ rest =
      '(' :: (head.toList ++ (renderAll items ++ ')' :: rest)) := by
  simp [render]

theorem renderAll_cons_append (x : Sexp) (xs : List Sexp) (rest : List Char) :
    renderAll (x :: xs) ++ rest = ' ' :: (x.render ++ (renderAll xs ++ rest)) := by
  simp [renderAll]

theorem ends_renderAll (items : List Sexp) (rest : List Char) :
    Ends (renderAll items ++ ')' :: rest) := by
  cases items with
  | nil =>
    rintro _ ⟨⟩
    rfl
  | cons x xs =>
    rw [renderAll_cons_append]
    rintro _ ⟨⟩
    rfl

mutual

theorem render_unique : (x y : Sexp) → x.WellFormed → y.WellFormed → ∀ {rest rest' : List Char},
    Ends rest → Ends rest' → x.render ++ rest = y.render ++ rest' → x = y ∧ rest = rest'
  | word _, word _, .word hx, .word hy, _, _, hrest, hrest', h => by
    rw [render, render] at h
    obtain ⟨htext, rfl⟩ := append_unique hx.2 hy.2 hrest hrest' h
    exact ⟨by rw [String.toList_inj.mp htext], rfl⟩
  | quoted text, quoted text', .quoted hx, .quoted hy, rest, rest', _, _, h => by
    rw [render_quoted_append, render_quoted_append] at h
    have hinside : ∀ {text : String}, '"' ∉ text.toList → ∀ c ∈ text.toList, (c == '"') = false :=
      fun htext c hc => beq_eq_false_iff_ne.mpr fun heq => htext (heq ▸ hc)
    obtain ⟨htext, hrest⟩ := append_unique (hinside hx) (hinside hy) (by simp) (by simp)
      (List.cons.inj h).2
    exact ⟨by rw [String.toList_inj.mp htext], (List.cons.inj hrest).2⟩
  | node head items, node head' items', .node hhead hitems, .node hhead' hitems', rest, rest',
      _, _, h => by
    rw [render_node_append, render_node_append] at h
    obtain ⟨htext, hrest⟩ := append_unique hhead.2 hhead'.2 (ends_renderAll items rest)
      (ends_renderAll items' rest') (List.cons.inj h).2
    obtain ⟨rfl, rfl⟩ := renderAll_unique items items' hitems hitems' hrest
    exact ⟨by rw [String.toList_inj.mp htext], rfl⟩
  | word _, quoted text, .word hx, _, _, rest, _, _, h => by
    rw [render, render_quoted_append] at h
    exact absurd h (hx.append_ne rfl _ _)
  | word _, node head items, .word hx, _, _, rest, _, _, h => by
    rw [render, render_node_append] at h
    exact absurd h (hx.append_ne rfl _ _)
  | quoted text, word _, _, .word hy, rest, _, _, _, h => by
    rw [render, render_quoted_append] at h
    exact absurd h.symm (hy.append_ne rfl _ _)
  | node head items, word _, _, .word hy, rest, _, _, _, h => by
    rw [render, render_node_append] at h
    exact absurd h.symm (hy.append_ne rfl _ _)
  | quoted _, node _ _, _, _, _, _, _, _, h => by
    rw [render_quoted_append, render_node_append] at h
    exact nomatch (List.cons.inj h).1
  | node _ _, quoted _, _, _, _, _, _, _, h => by
    rw [render_quoted_append, render_node_append] at h
    exact nomatch (List.cons.inj h).1

theorem renderAll_unique : (xs ys : List Sexp) → (∀ x ∈ xs, x.WellFormed) →
    (∀ y ∈ ys, y.WellFormed) → ∀ {rest rest' : List Char},
    renderAll xs ++ ')' :: rest = renderAll ys ++ ')' :: rest' → xs = ys ∧ rest = rest'
  | [], [], _, _, _, _, h => ⟨rfl, (List.cons.inj h).2⟩
  | [], y :: ys, _, _, _, _, h => by
    rw [renderAll_cons_append] at h
    exact nomatch (List.cons.inj h).1
  | x :: xs, [], _, _, _, _, h => by
    rw [renderAll_cons_append] at h
    exact nomatch (List.cons.inj h).1
  | x :: xs, y :: ys, hx, hy, rest, rest', h => by
    rw [List.forall_mem_cons] at hx hy
    rw [renderAll_cons_append, renderAll_cons_append] at h
    obtain ⟨rfl, hrest⟩ := render_unique x y hx.1 hy.1 (ends_renderAll xs rest)
      (ends_renderAll ys rest') (List.cons.inj h).2
    obtain ⟨rfl, rfl⟩ := renderAll_unique xs ys hx.2 hy.2 hrest
    exact ⟨rfl, rfl⟩

end

theorem render_injective {x y : Sexp} (hx : x.WellFormed) (hy : y.WellFormed)
    (h : x.render = y.render) : x = y := by
  have hnil : Ends [] := fun _ hc => nomatch hc
  exact (render_unique x y hx hy hnil hnil (by rw [h])).1

end Sexp

/-! ### Trees as S-expressions -/

namespace Expr

def sexp : Expr → Sexp
  | literal (.string s) _ => .quoted s
  | literal v _ => .word v.text
  | var id => .word id.name
  | unary op operand _ => .node op.symbol [operand.sexp]
  | binary op lhs rhs _ => .node op.symbol [lhs.sexp, rhs.sexp]
  | assign target value _ => .node "set" [.word target.name, value.sexp]

theorem toList_text (e : Expr) : e.text.toList = e.sexp.render := by
  induction e with
  | literal v span => cases v <;> simp [text, literalText, sexp, Sexp.render, toString]
  | var id => rfl
  | unary op operand span ih => simp [text, sexp, Sexp.render, Sexp.renderAll, ← ih, toString]
  | binary op lhs rhs span ihl ihr =>
    simp [text, sexp, Sexp.render, Sexp.renderAll, ← ihl, ← ihr, toString]
  | assign target value span ih =>
    simp [text, sexp, Sexp.render, Sexp.renderAll, ← ih, toString]

end Expr

namespace Declaration

/-- What a declaration is shown as behind its keyword. -/
def items (d : Declaration) : List Sexp :=
  .word d.type.keyword :: .word d.id.name :: d.initializer.toList.map Expr.sexp

def sexp (d : Declaration) : Sexp := .node (if d.isConstant then "const" else "var") d.items

theorem toList_text (d : Declaration) : d.text.toList = d.sexp.render := by
  obtain ⟨id, type, isConstant, initializer⟩ := d
  cases initializer <;>
    simp [text, sexp, items, Sexp.render, Sexp.renderAll, Expr.toList_text, toString]

end Declaration

namespace Stmt

mutual

def sexp : Stmt → Sexp
  | print value _ => .node "print" [value.sexp]
  | declare declaration _ => declaration.sexp
  | assign target value _ => .node "set" [.word target.name, value.sexp]
  | ifElse condition body none _ => .node "if" [condition.sexp, .node "block" (sexps body)]
  | ifElse condition body (some otherwise) _ =>
    .node "if" [condition.sexp, .node "block" (sexps body), .node "block" (sexps otherwise)]
  | block body _ => .node "block" (sexps body)

def sexps : List Stmt → List Sexp
  | [] => []
  | s :: rest => s.sexp :: sexps rest

end

theorem sexps_eq_map (body : List Stmt) : sexps body = body.map sexp := by
  induction body with
  | nil => rfl
  | cons s rest ih => rw [sexps, ih, List.map_cons]

mutual

theorem toList_text : (s : Stmt) → s.text.toList = s.sexp.render
  | print value _ => by
    simp [text, sexp, Sexp.render, Sexp.renderAll, value.toList_text, toString]
  | declare declaration _ => by rw [text, sexp, declaration.toList_text]
  | assign target value _ => by
    simp [text, sexp, Sexp.render, Sexp.renderAll, value.toList_text, toString]
  | ifElse condition body none _ => by
    simp [text, sexp, Sexp.render, Sexp.renderAll, condition.toList_text, toList_itemsText body,
      toString]
  | ifElse condition body (some otherwise) _ => by
    simp [text, sexp, Sexp.render, Sexp.renderAll, condition.toList_text, toList_itemsText body,
      toList_itemsText otherwise, toString]
  | block body _ => by simp [text, sexp, Sexp.render, toList_itemsText body, toString]

theorem toList_itemsText : (body : List Stmt) →
    (itemsText body).toList = Sexp.renderAll (sexps body)
  | [] => rfl
  | s :: rest => by
    simp [itemsText, sexps, Sexp.renderAll, toList_text s, toList_itemsText rest, toString]

end

end Stmt

end EggLang
