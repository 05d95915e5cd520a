/-
  A program as the body of a function: the same statements, one level deeper.
-/
import Scriptlet.Proofs.Language.Acceptance
import Scriptlet.Proofs.Language.Levels
import Scriptlet.Proofs.Language.Relocation
import Scriptlet.Proofs.Rendering.Tokens
import Scriptlet.Proofs.Text.Joining

namespace Scriptlet

/-- The function whose body is the text, on lines of its own. -/
def Text.functionOf (text : String) : String :=
  "function() \x7b" ++ "\n" ++ text ++ "\n" ++ "\x7d"

/-- Statements are the body of a function that stands around them. -/
theorem Derives.functionBody {d : Nat} {f o c b e : Token} {ts : List Token} {ss : List Stmt}
    (hf : f.kind = .functionWord) (ho : o.kind = .openParen) (hc : c.kind = .closeParen)
    (hb : b.kind = .openBrace) (h : Derives d .statements ts ss) (he : e.kind = .closeBrace) :
    Derives (d + 1) .statements (f :: o :: c :: b :: (ts ++ [e]))
      [.expr f (.function f [] (.mk b ss))] := by
  have hbody : Derives d .block (b :: ts ++ [e]) (.mk b ss) := .block hb h he
  have hfunction : Derives d (.expr .primary) (f :: o :: c :: b :: (ts ++ [e])) _ :=
    .function hf ho .none hc hbody
  have hstatement : Derives (d + 1) .statement (f :: o :: c :: b :: (ts ++ [e])) _ :=
    .expr (hfunction.loosen (by decide))
  simpa using hstatement.opened not_goesOn_nil .empty

/-- No lexeme reaches over a line feed. -/
theorem lexemes_append_lineFeed (cs ds : List Char) :
    lexemes (cs ++ '\n' :: ds) = lexemes cs ++ lexemes ds := by
  rw [lexemes_append_of_apart (apart_of_isBlank rfl), lexemes_lineFeed]

/-- The tokens between the braces are those of the text. -/
theorem same_functionOf (text : String) :
    Same (Scanner.ofText (Text.functionOf text)).ahead
      (Kind.functionWord.token :: Kind.openParen.token :: Kind.closeParen.token ::
        Kind.openBrace.token :: ((Scanner.ofText text).ahead ++ [Kind.closeBrace.token])) := by
  have hhead : lexemes "function() \x7b".toList =
      [Kind.functionWord.token.lexeme, Kind.openParen.token.lexeme, Kind.closeParen.token.lexeme,
        Kind.openBrace.token.lexeme] := by
    have hword : Kind.functionWord.token.Spelled := ⟨'f', "unction".toList, rfl, rfl, by decide⟩
    have happly := lexemes_spelled "() \x7b".toList hword (by simp [isWordPart])
    refine happly.trans ?_
    simp [lexemes_openParen, lexemes_closeParen, lexemes_space, lexemes_openBrace]
  have hrest : (Scanner.ofText (Text.functionOf text)).rest =
      "function() \x7b".toList ++ '\n' :: (text.toList ++ '\n' :: "\x7d".toList) := by
    simp [Scanner.ofText, Text.functionOf]
  rw [Same, Scanner.map_lexeme_ahead, hrest, lexemes_append_lineFeed, lexemes_append_lineFeed,
    hhead]
  simp [lexemes_closeBrace, Scanner.map_lexeme_ahead, Scanner.ofText]

/-- **A program with a level to spare is the body of a function**, with the same statements at other
    places. -/
theorem parse_functionOf {text : String} {p : Program} (h : parse text = (p, []))
    (hlevels : ∃ d ≤ 127, ∃ ss, Derives d .statements (tokenize text).dropLast ss) :
    ∃ t f o ss, parse (Text.functionOf text) = (⟨[.expr t (.function f [] (.mk o ss))]⟩, []) ∧
      Stmt.retokenAll .unplaced ss = Stmt.retokenAll .unplaced p.statements := by
  obtain ⟨d, hd, ss, hderives⟩ := hlevels
  obtain ⟨d', -, hprogram⟩ := parse_eq_iff.1 h
  rw [dropLast_tokenize] at hderives
  obtain ⟨rfl, rfl⟩ := hderives.unique hprogram (Scanner.spelled_ahead _)
  -- the tokens of the function, one after another, and those of the text between them
  obtain ⟨f, ts, htokens, hf, -, hsame⟩ := (same_functionOf text).cons_of_kind rfl
  obtain ⟨o, ts, rfl, ho, -, hsame⟩ := hsame.cons_of_kind rfl
  obtain ⟨c, ts, rfl, hc, -, hsame⟩ := hsame.cons_of_kind rfl
  obtain ⟨b, ts, rfl, hb, -, hsame⟩ := hsame.cons_of_kind rfl
  obtain ⟨us, es, rfl, hus, hends⟩ := hsame.append
  obtain ⟨e, rfl, he, -⟩ := hends.singleton_of_kind rfl
  obtain ⟨ss, hss, hunplaced⟩ := hderives.relocate hus
  refine ⟨f, f, b, ss, parse_eq_iff.2 ⟨d + 1, ?_, ?_⟩, hunplaced⟩
  · rw [Grammar.nestingLimit]
    omega
  · rw [htokens]
    exact hss.functionBody hf ho hc hb he

/-- A program with blocks in a block and without a `;`. -/
theorem parse_functionOf_nested :
    let text := "var f = function(a) \x7b if (a) \x7b return -a \x7d else \x7b \x7d \x7d\nf(2) x"
    ∃ p : Program, parse text = (p, []) ∧ p.statements.length = 3 ∧
      (∃ d ≤ 127, ∃ ss, Derives d .statements (tokenize text).dropLast ss) ∧
      ∃ t f o ss, parse (Text.functionOf text) = (⟨[.expr t (.function f [] (.mk o ss))]⟩, []) ∧
        Stmt.retokenAll .unplaced ss = Stmt.retokenAll .unplaced p.statements := by
  intro text
  have hclean : (parse text).2 = [] := by decide +kernel
  have hparse : parse text = ((parse text).1, []) := by rw [← hclean]
  have hlevels : ∃ d ≤ 127, ∃ ss, Derives d .statements (tokenize text).dropLast ss := by
    rw [dropLast_tokenize]
    obtain ⟨d, hd, hderives⟩ := (Grammar.run_program_iff (n := 127)
      (r := .ofScanner (.ofText text)) (Scanner.spelled_ahead _) _).1 ⟨rfl, by decide +kernel⟩
    exact ⟨d, hd, _, hderives⟩
  exact ⟨_, hparse, by decide +kernel, hlevels, parse_functionOf hparse hlevels⟩

end Scriptlet
