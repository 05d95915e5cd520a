/-
  The kinds of token of the language.

  * `Kind.name` is the name by which diagnostics and token listings call a
    kind, `Kind.label` the one by which structure dumps call it.
  * `Kind.ofWord` classifies a word: seven words are reserved
    (`Kind.reservedWords`), every other one is an identifier.
  * `Kind.all` lists the kinds in their declared order; every kind occurs in
    it (`Kind.mem_all`).
-/
namespace Scriptlet

/-- What a token is, its spelling and its place left aside. -/
inductive Kind where
  /-- the end of the text -/
  | eof
  /-- a character that starts no token -/
  | illegal
  | identifier
  | integer
  | assign
  | equal
  | bang
  | notEqual
  | less
  | greater
  | plus
  | minus
  | star
  | slash
  | semicolon
  | comma
  | openParen
  | closeParen
  | openBrace
  | closeBrace
  | varWord
  | returnWord
  | functionWord
  | ifWord
  | elseWord
  | trueWord
  | falseWord
deriving DecidableEq, Repr, Inhabited

namespace Kind

/-- Every kind, in declared order. -/
def all : List Kind :=
  [eof, illegal, identifier, integer, assign, equal, bang, notEqual, less, greater, plus, minus,
   star, slash, semicolon, comma, openParen, closeParen, openBrace, closeBrace, varWord,
   returnWord, functionWord, ifWord, elseWord, trueWord, falseWord]

theorem mem_all (k : Kind) : k ∈ all := by
  cases k <;> decide

/-- The name of a kind in diagnostics and token listings. -/
def name : Kind → String
  | eof => "EOF"
  | illegal => "ILLEGAL"
  | identifier => "IDENTIFIER"
  | integer => "INTEGER"
  | assign => "ASSIGN"
  | equal => "EQUALS"
  | bang => "NOT"
  | notEqual => "NOT_EQUALS"
  | less => "LESS"
  | greater => "GREATER"
  | plus => "PLUS"
  | minus => "MINUS"
  | star => "MULTIPLICATION"
  | slash => "DIVISION"
  | semicolon => "SEMICOLON"
  | comma => "COMMA"
  | openParen => "LPAREN"
  | closeParen => "RPAREN"
  | openBrace => "LBRACE"
  | closeBrace => "RBRACE"
  | varWord => "VAR"
  | returnWord => "RETURN"
  | functionWord => "FUNCTION"
  | ifWord => "IF"
  | elseWord => "ELSE"
  | trueWord => "TRUE"
  | falseWord => "FALSE"

instance : ToString Kind := ⟨name⟩

/-- The name of a kind in structure dumps. -/
def label : Kind → String
  | eof => "EOF"
  | illegal => "Illegal"
  | identifier => "Identifier"
  | integer => "Integer"
  | assign => "Assign"
  | equal => "Equals"
  | bang => "Not"
  | notEqual => "NotEquals"
  | less => "Less"
  | greater => "Greater"
  | plus => "Plus"
  | minus => "Dash"
  | star => "Star"
  | slash => "Slash"
  | semicolon => "Semicolon"
  | comma => "Comma"
  | openParen => "OpenParen"
  | closeParen => "CloseParen"
  | openBrace => "OpenCurly"
  | closeBrace => "CloseCurly"
  | varWord => "Var"
  | returnWord => "Return"
  | functionWord => "Function"
  | ifWord => "If"
  | elseWord => "Else"
  | trueWord => "True"
  | falseWord => "False"

/-- A kind at which an expression ends whatever the grammar: `;` or the end of the text. -/
def isTerminator : Kind → Bool
  | semicolon | eof => true
  | _ => false

theorem isTerminator_iff {k : Kind} : k.isTerminator = true ↔ k = semicolon ∨ k = eof := by
  cases k <;> decide

/-- The reserved words. -/
def reservedWords : List (String × Kind) :=
  [("var", varWord), ("return", returnWord), ("function", functionWord), ("if", ifWord),
   ("else", elseWord), ("true", trueWord), ("false", falseWord)]

/-- The kind of a word that is reserved. -/
def reserved? (word : String) : Option Kind :=
  reservedWords.lookup word

/-- The kind of a word: reserved, or else an identifier. -/
def ofWord (word : String) : Kind :=
  (reserved? word).getD identifier

end Kind

end Scriptlet
