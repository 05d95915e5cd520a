/-
  The nodes of a tree, in the order of the text.
-/
import Mathlib.Algebra.Group.Int.Defs
import Scriptlet.Proofs.Text.Spelling
import Scriptlet.Tree

namespace Scriptlet

/-- A node of a tree without its parts. -/
inductive Node where
  | name (identifier : Identifier)
  | integer (token : Token) (value : Int)
  | boolean (token : Token) (value : Bool)
  | unary (token : Token) (operator : String)
  | binary (token : Token) (operator : String)
  | conditional (token : Token)
  | function (token : Token)
  | call (token : Token)
  | block (token : Token)
  | var (token : Token)
  | ret (token : Token)
  /-- an expression statement, with the token that its expression begins with -/
  | expr (token : Token)
deriving DecidableEq, Repr

namespace Node

/-- The token that defines the node. -/
def token : Node → Token
  | name i => i.token
  | integer t _ | boolean t _ | unary t _ | binary t _ | conditional t | function t | call t
  | block t | var t | ret t | expr t => t

/-- The token that the node holds for itself. -/
def held? : Node → Option Token
  | expr _ => none
  | n => some n.token

/-- The token is of the node's kind, and the node is what the token spells. -/
def Fits : Node → Prop
  | name i => i.token.kind = .identifier ∧ i.value = i.token.literal
  | integer t v => t.kind = .integer ∧ v = t.decimal ∧ 0 ≤ v ∧ v ≤ 2 ^ 63 - 1
  | boolean t v => (t.kind = .trueWord ∨ t.kind = .falseWord) ∧ (v = true ↔ t.literal = "true")
  | unary t op => (t.kind = .bang ∨ t.kind = .minus) ∧ op = t.literal
  | binary t op =>
    t.kind ∈ [.equal, .notEqual, .less, .greater, .plus, .minus, .star, .slash] ∧ op = t.literal
  | conditional t => t.kind = .ifWord
  | function t => t.kind = .functionWord
  | call t => t.kind = .openParen
  | block t => t.kind = .openBrace
  | var t => t.kind = .varWord
  | ret t => t.kind = .returnWord
  | expr t => t.kind ∈ [.identifier, .integer, .trueWord, .falseWord, .bang, .minus, .openParen,
      .ifWord, .functionWord]

end Node

mutual

/-- The nodes of an expression, in the order of the text. -/
def Expr.nodes : Expr → List Node
  | .name i => [.name i]
  | .integer t v => [.integer t v]
  | .boolean t v => [.boolean t v]
  | .unary t op e => .unary t op :: e.nodes
  | .binary t l op r => l.nodes ++ .binary t op :: r.nodes
  | .conditional t c b none => .conditional t :: (c.nodes ++ b.nodes)
  | .conditional t c b (some a) => .conditional t :: (c.nodes ++ (b.nodes ++ a.nodes))
  | .function t ps b => .function t :: (ps.map .name ++ b.nodes)
  | .call t f as => f.nodes ++ .call t :: Expr.nodesAll as

/-- The nodes of expressions that stand one after another. -/
def Expr.nodesAll : List Expr → List Node
  | [] => []
  | e :: es => e.nodes ++ Expr.nodesAll es

/-- The nodes of a block, in the order of the text. -/
def Block.nodes : Block → List Node
  | .mk t ss => .block t :: Stmt.nodesAll ss

/-- The nodes of a statement, in the order of the text. -/
def Stmt.nodes : Stmt → List Node
  | .var t n none => [.var t, .name n]
  | .var t n (some e) => .var t :: .name n :: e.nodes
  | .ret t none => [.ret t]
  | .ret t (some e) => .ret t :: e.nodes
  | .expr t e => .expr t :: e.nodes

/-- The nodes of statements that stand one after another. -/
def Stmt.nodesAll : List Stmt → List Node
  | [] => []
  | s :: ss => s.nodes ++ Stmt.nodesAll ss

end

/-- The nodes of a program, in the order of the text. -/
def Program.nodes (p : Program) : List Node :=
  Stmt.nodesAll p.statements

/-- The tokens that the nodes of a program hold, in the order of the text. -/
def Program.held (p : Program) : List Token :=
  p.nodes.filterMap Node.held?

theorem Expr.nodesAll_eq (es : List Expr) : nodesAll es = es.flatMap nodes := by
  induction es with
  | nil => rfl
  | cons e es ih => rw [nodesAll, ih, List.flatMap_cons]

/-! ## Nodes made from tokens -/

/-- From the tokens `ts` the nodes `ns` have been made, and `rest` is left. -/
structure Gives (ts : List Token) (ns : List Node) (rest : List Token) : Prop where
  /-- The tokens that the nodes hold come in order, and before what is left. -/
  sublist : (ns.filterMap Node.held? ++ rest).Sublist ts
  /-- Every node is made from one of the tokens. -/
  mem : ∀ n ∈ ns, n.token ∈ ts
  /-- Every node fits its token, if that is one of a text. -/
  fits : ∀ n ∈ ns, n.token.Spelled → n.Fits

namespace Gives

variable {t : Token} {ts us vs : List Token} {n : Node} {ns ms : List Node}

theorem nil (h : us.Sublist ts) : Gives ts [] us :=
  ⟨h, by simp, by simp⟩

theorem rest (h : Gives ts ns us) : us.Sublist ts :=
  (List.sublist_append_right _ _).trans h.sublist

/-- Tokens may be passed over after the last node. -/
theorem leave (h : Gives ts ns us) (hvs : vs.Sublist us) : Gives ts ns vs :=
  ⟨(hvs.append_left _).trans h.sublist, h.mem, h.fits⟩

/-- Tokens may be passed over before the first node. -/
theorem skip (h : Gives us ns vs) (hus : us.Sublist ts) : Gives ts ns vs :=
  ⟨h.sublist.trans hus, fun n hn => hus.subset (h.mem n hn), h.fits⟩

theorem append (h : Gives ts ns us) (h' : Gives us ms vs) : Gives ts (ns ++ ms) vs where
  sublist := by
    rw [List.filterMap_append, List.append_assoc]
    exact (h'.sublist.append_left _).trans h.sublist
  mem n hn := by
    rcases List.mem_append.1 hn with hn | hn
    · exact h.mem n hn
    · exact h.rest.subset (h'.mem n hn)
  fits n hn := by
    rcases List.mem_append.1 hn with hn | hn
    · exact h.fits n hn
    · exact h'.fits n hn

/-- A node holds the first token. -/
theorem cons (hn : n.held? = some t) (hfits : t.Spelled → n.Fits) (h : Gives ts ns us) :
    Gives (t :: ts) (n :: ns) us := by
  have ht : n.token = t := by
    cases n <;> first | exact Option.some.inj hn | cases hn
  subst ht
  have hone : Gives (n.token :: ts) [n] ts := by
    refine ⟨by simp [hn], by simp, ?_⟩
    intro m hm
    obtain rfl := List.mem_singleton.1 hm
    exact hfits
  exact hone.append h

/-- An expression statement begins with the first token, and does not hold it. -/
theorem begin (hfits : (Node.expr t).Fits) (h : Gives (t :: ts) ns us) :
    Gives (t :: ts) (.expr t :: ns) us where
  sublist := h.sublist
  mem n hn := by
    rcases List.mem_cons.1 hn with rfl | hn
    · exact List.mem_cons_self
    · exact h.mem n hn
  fits n hn := by
    rcases List.mem_cons.1 hn with rfl | hn
    · exact fun _ => hfits
    · exact h.fits n hn

end Gives

end Scriptlet
