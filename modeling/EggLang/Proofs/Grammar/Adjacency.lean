import EggLang.Proofs.Grammar.Statement
import EggLang.Proofs.Scanning

/-! Tokens side by side in what the grammar derives. An operand stands between any two operators, so
that a `/` never has a `*` behind it, and no text that parses has an open comment in it. -/

namespace EggLang.Grammar

open Parse

/-- No `/` has a `*` behind it, and none gets one where such tokens are put one after the other. -/
structure Sealed (ts : List Token) : Prop where
  chain : ts.IsChain Token.Apart
  head : ∀ t ∈ ts.head?, t.is .operator "*" = false
  last : ∀ t ∈ ts.getLast?, t.is .operator "/" = false

namespace Sealed

variable {ts us : List Token} {t : Token}

theorem nil : Sealed [] := ⟨.nil, nofun, nofun⟩

theorem single (hstar : t.is .operator "*" = false) (hslash : t.is .operator "/" = false) :
    Sealed [t] :=
  ⟨.singleton t, by rintro _ ⟨⟩; exact hstar, by rintro _ ⟨⟩; exact hslash⟩

theorem of_kind (h : t.kind ≠ .operator) : Sealed [t] :=
  single (by simp [Token.is, h]) (by simp [Token.is, h])

theorem append (hts : Sealed ts) (hus : Sealed us) : Sealed (ts ++ us) where
  chain := by
    refine List.isChain_append.mpr ⟨hts.chain, hus.chain, fun t ht u hu hslash => ?_⟩
    exact absurd hslash (by simp [hts.last t ht])
  head := by
    cases ts with
    | nil => exact hus.head
    | cons t ts => exact hts.head
  last := by
    intro t ht
    rw [List.getLast?_append, Option.mem_def, Option.or_eq_some_iff] at ht
    exact ht.elim (hus.last t) fun h => hts.last t h.2

/-- Between operands there may be any operator. -/
theorem join (hts : Sealed ts) (hts' : ts ≠ []) (t : Token) (hus : Sealed us) (hus' : us ≠ []) :
    Sealed (ts ++ t :: us) where
  chain := by
    obtain ⟨u, us, rfl⟩ := List.exists_cons_of_ne_nil hus'
    refine List.isChain_append.mpr ⟨hts.chain, ?_, fun s hs _ _ hslash => ?_⟩
    · exact List.isChain_cons_cons.mpr ⟨fun _ => hus.head u rfl, hus.chain⟩
    · exact absurd hslash (by simp [hts.last s hs])
  head := by
    obtain ⟨s, ts, rfl⟩ := List.exists_cons_of_ne_nil hts'
    exact hts.head
  last := by
    obtain ⟨u, us, rfl⟩ := List.exists_cons_of_ne_nil hus'
    rw [List.getLast?_append_cons, List.getLast?_cons_cons]
    exact hus.last

theorem between {l r : Token} (hl : l.kind ≠ .operator) (hts : Sealed ts)
    (hr : r.kind ≠ .operator) : Sealed (l :: ts ++ [r]) :=
  ((of_kind hl).append hts).append (of_kind hr)

end Sealed

theorem kind_ne_of_is {t : Token} {kind : TokenKind} {text : String} (h : t.is kind text = true)
    (hkind : kind ≠ .operator := by decide) : t.kind ≠ .operator := by
  rwa [kind_of_is h]

/-- A token that is an operator other than those that comments start with. -/
theorem Sealed.of_is {t : Token} {text : String} (h : t.is .operator text = true)
    (hstar : text ≠ "*" := by decide) (hslash : text ≠ "/" := by decide) : Sealed [t] := by
  obtain ⟨-, ht⟩ := Bool.and_eq_true_iff.mp h
  rw [decide_eq_true_eq] at ht
  exact .single (by simp [Token.is, ht, hstar]) (by simp [Token.is, ht, hslash])

theorem Target.sealed {ts : List Token} {name : String} (h : Target ts name) : Sealed ts := by
  induction h with
  | name hk => exact .of_kind (by simp [hk])
  | parenthesized hl _ hr ih => exact .between (kind_ne_of_is hl) ih (kind_ne_of_is hr)

theorem Target.ne_nil {ts : List Token} {name : String} (h : Target ts name) : ts ≠ [] := by
  cases h <;> simp

theorem Derives.ne_nil {n : Nonterminal} {ts : List Token} {e : Expr} (h : Derives n ts e) :
    ts ≠ [] := by
  induction h with
  | operand _ _ ih => exact ih
  | _ => simp

theorem Derives.sealed {n : Nonterminal} {ts : List Token} {e : Expr} (h : Derives n ts e) :
    Sealed ts := by
  induction h with
  | assign ht _ hvalue ih => exact ht.sealed.join ht.ne_nil _ ih hvalue.ne_nil
  | binary _ _ hlhs _ hrhs ihl ihr => exact ihl.join hlhs.ne_nil _ ihr hrhs.ne_nil
  | operand _ _ ih => exact ih
  | @unary op t ts e hop _ ih =>
    have hstar : op.symbol ≠ "*" := by cases op <;> decide
    have hslash : op.symbol ≠ "/" := by cases op <;> decide
    exact (Sealed.of_is hop hstar hslash).append ih
  | number hk | string hk | var hk => exact .of_kind (by simp [hk])
  | boolean hb => exact .of_kind (kind_ne_of_is hb)
  | parenthesized hl _ hr ih => exact .between (kind_ne_of_is hl) ih (kind_ne_of_is hr)

theorem Bracketed.sealed {ts : List Token} {name : String} {type : DataType}
    (h : Bracketed ts name type) : Sealed ts := by
  cases h with
  | mk hi hl ht hr =>
    exact .append (.of_kind (by simp [hi])) (.append (.of_kind (kind_ne_of_is hl))
      (.append (.of_kind (kind_ne_of_is ht)) (.of_kind (kind_ne_of_is hr))))

theorem TypeFirst.sealed {ts : List Token} {name : String} {type : DataType}
    (h : TypeFirst ts name type) : Sealed ts := by
  cases h with
  | mk ht hi => exact .append (.of_kind (kind_ne_of_is ht)) (.of_kind (by simp [hi]))

theorem Heading.sealed {ts : List Token} {isConstant : Bool} {name : String} {type : DataType}
    (h : Heading ts isConstant name type) : Sealed ts := by
  cases h with
  | bracketed hk hd => exact .append (.of_kind (kind_ne_of_is hk)) hd.sealed
  | typeFirst hd => exact hd.sealed
  | constantBracketed hk hd => exact .append (.of_kind (kind_ne_of_is hk)) hd.sealed
  | constantTypeFirst hk hd => exact .append (.of_kind (kind_ne_of_is hk)) hd.sealed

theorem Initial.sealed {ts : List Token} {value : Option Expr} (h : Initial ts value) :
    Sealed ts := by
  cases h with
  | none => exact .nil
  | some ht hd => exact .append (.of_is ht) hd.sealed

mutual

theorem Statement.sealed {ts : List Token} {next : Option Token} {s : Stmt} :
    Statement ts next s → Sealed ts
  | .print hk hl hd hr hs =>
    .append
      (.append (.of_kind (kind_ne_of_is hk)) (.append (.of_kind (kind_ne_of_is hl)) hd.sealed))
      (.append (.of_kind (kind_ne_of_is hr)) (.of_kind (kind_ne_of_is hs)))
  | .ifThen hk hd hb _ => .append (.append (.of_kind (kind_ne_of_is hk)) hd.sealed) hb.sealed
  | .ifElse hk hd hb he ho =>
    .append (.append (.append (.of_kind (kind_ne_of_is hk)) hd.sealed) hb.sealed)
      (.append (.of_kind (kind_ne_of_is he)) ho.sealed)
  | .declare hd hi _ hs => .append (.append hd.sealed hi.sealed) (.of_kind (kind_ne_of_is hs))
  | .block hl hb hr => .between (kind_ne_of_is hl) hb.sealed (kind_ne_of_is hr)
  | .assign hd hs => .append hd.sealed (.of_kind (kind_ne_of_is hs))
  | .increment hd hop hs => .append hd.sealed (.append (.of_is hop) (.of_kind (kind_ne_of_is hs)))

theorem Body.sealed {ts : List Token} {next : Option Token} {body : List Stmt} :
    Body ts next body → Sealed ts
  | .braces hl hb hr => .between (kind_ne_of_is hl) hb.sealed (kind_ne_of_is hr)
  | .single _ hs => hs.sealed

theorem Statements.sealed {ts : List Token} {next : Option Token} {body : List Stmt} :
    Statements ts next body → Sealed ts
  | .nil => .nil
  | .cons hs hr => hs.sealed.append hr.sealed

end

end EggLang.Grammar
