import Lisan.Tree

/-!
# Phrases

The grammar of the language, apart from any reader: which lists of tokens make up
which trees. Names stand for kinds of tokens, and quoted signs for themselves.

* program: statement*
* statement: FUNC NAME names block, or IF expression block [ELSE block],
  or WHILE expression block, or block, or expression "."
* block: "{" statement* "}"
* names: "(" [NAME ("," NAME)*] ")"
* expression: NAME "=" expression, or equality
* equality, comparison, term and factor: chains of the next level, with
  == and !=, with > and >= and < and <=, with + and -, with * and /
* unary: "!" unary, or "-" unary, or call
* call: primary ["(" [expression ("," expression)*] ")"]
* primary: INT, or STRING, or NAME, or "(" expression ")"

Each rule takes the phrases that it is made of as a relation between tokens and
trees. The two relations that refer to themselves, `Expression` and `Statement`,
close the rules at the end of their sections.
-/

namespace Lisan
namespace Grammar

variable {H : Type}

/-!
## Phrases in a row
-/

inductive Separated (Item : List Token -> α -> Prop) : List Token -> List α -> Prop where
  | single {tokens : List Token} {a : α} :
      Item tokens a -> Separated Item tokens [a]
  | more {front back : List Token} {comma : Token} {a : α} {others : List α} :
      Item front a -> comma.kind = .comma -> Separated Item back others ->
      Separated Item (front ++ comma :: back) (a :: others)

inductive Listed (Item : List Token -> α -> Prop) : List Token -> List α -> Prop where
  | none {opening closing : Token} :
      opening.kind = .openParen -> closing.kind = .closeParen ->
      Listed Item [opening, closing] []
  | some {opening closing : Token} {tokens : List Token} {items : List α} :
      opening.kind = .openParen -> Separated Item tokens items ->
      closing.kind = .closeParen ->
      Listed Item (opening :: (tokens ++ [closing])) items

inductive Repeated (Item : List Token -> α -> Prop) : List Token -> List α -> Prop where
  | nil : Repeated Item [] []
  | cons {front back : List Token} {a : α} {others : List α} :
      Item front a -> Repeated Item back others ->
      Repeated Item (front ++ back) (a :: others)

inductive Named : List Token -> String -> Prop where
  | intro {token : Token} {name : String} :
      token.kind = .name name -> Named [token] name

/-!
## Expressions
-/

/-- A chain of operands with operators of one level between them. The tree grows
to the left. -/
inductive Chain (signs : List Token.Kind) (Operand : List Token -> Expr H -> Prop) :
    List Token -> Expr H -> Prop where
  | single {tokens : List Token} {e : Expr H} :
      Operand tokens e -> Chain signs Operand tokens e
  | more {front back : List Token} {operator : Token} {left right : Expr H} :
      Chain signs Operand front left -> operator.kind ∈ signs -> Operand back right ->
      Chain signs Operand (front ++ operator :: back) (.binary left operator right)

inductive Prefixed (Operand : List Token -> Expr H -> Prop) :
    List Token -> Expr H -> Prop where
  | plain {tokens : List Token} {e : Expr H} :
      Operand tokens e -> Prefixed Operand tokens e
  | more {operator : Token} {tokens : List Token} {e : Expr H} :
      operator.kind ∈ [Token.Kind.bang, .minus] -> Prefixed Operand tokens e ->
      Prefixed Operand (operator :: tokens) (.unary operator e)

inductive Primary (Inner : List Token -> Expr H -> Prop) : List Token -> Expr H -> Prop where
  | int {token : Token} {n : Int} :
      token.kind = .int n -> Primary Inner [token] (.literal (.int n))
  | str {token : Token} {text : String} :
      token.kind = .str text -> Primary Inner [token] (.literal (.str text))
  | var {token : Token} {name : String} :
      token.kind = .name name -> Primary Inner [token] (.var name)
  | group {opening closing : Token} {tokens : List Token} {e : Expr H} :
      opening.kind = .openParen -> Inner tokens e -> closing.kind = .closeParen ->
      Primary Inner (opening :: (tokens ++ [closing])) (.group e)

/-- A primary expression, or one call of it. -/
inductive Called (Inner : List Token -> Expr H -> Prop) : List Token -> Expr H -> Prop where
  | plain {tokens : List Token} {e : Expr H} :
      Primary Inner tokens e -> Called Inner tokens e
  | call {front back : List Token} {callee : Expr H} {args : List (Expr H)} :
      Primary Inner front callee -> Listed Inner back args ->
      Called Inner (front ++ back) (.call callee args)

inductive Assigned (Inner : List Token -> Expr H -> Prop) : List Token -> Expr H -> Prop where
  | assign {target sign : Token} {name : String} {tokens : List Token} {value : Expr H} :
      target.kind = .name name -> sign.kind = .assign -> Inner tokens value ->
      Assigned Inner (target :: sign :: tokens) (.assign name value)
  | plain {tokens : List Token} {e : Expr H} :
      Chain [.equal, .notEqual]
        (Chain [.greater, .greaterEqual, .less, .lessEqual]
          (Chain [.plus, .minus]
            (Chain [.star, .slash]
              (Prefixed (Called Inner))))) tokens e ->
      Assigned Inner tokens e

inductive Expression : List Token -> Expr H -> Prop where
  | intro {tokens : List Token} {e : Expr H} :
      Assigned Expression tokens e -> Expression tokens e

/-!
## Statements
-/

inductive Braced (Inner : List Token -> Stmt H -> Prop) : List Token -> Stmt H -> Prop where
  | intro {opening closing : Token} {tokens : List Token} {body : List (Stmt H)} :
      opening.kind = .openBrace -> Repeated Inner tokens body ->
      closing.kind = .closeBrace ->
      Braced Inner (opening :: (tokens ++ [closing])) (.block body)

/-- The forms of statements. A branch without its other side has an empty block
there. -/
inductive Sentence (Whole : List Token -> Expr H -> Prop)
    (Inner : List Token -> Stmt H -> Prop) : List Token -> Stmt H -> Prop where
  | define {keyword target : Token} {name : String} {names block : List Token}
      {params : List String} {body : Stmt H} :
      keyword.kind = .functionWord -> target.kind = .name name ->
      Listed Named names params -> Braced Inner block body ->
      Sentence Whole Inner (keyword :: target :: (names ++ block)) (.define name params body)
  | branch {keyword : Token} {tokens block : List Token} {condition : Expr H}
      {onTrue : Stmt H} :
      keyword.kind = .ifWord -> Whole tokens condition ->
      Braced Inner block onTrue ->
      Sentence Whole Inner (keyword :: (tokens ++ block)) (.branch condition onTrue (.block []))
  | branchElse {keyword otherwise : Token} {tokens block other : List Token}
      {condition : Expr H} {onTrue onFalse : Stmt H} :
      keyword.kind = .ifWord -> Whole tokens condition ->
      Braced Inner block onTrue -> otherwise.kind = .elseWord ->
      Braced Inner other onFalse ->
      Sentence Whole Inner (keyword :: (tokens ++ (block ++ otherwise :: other)))
        (.branch condition onTrue onFalse)
  | loop {keyword : Token} {tokens block : List Token} {condition : Expr H}
      {body : Stmt H} :
      keyword.kind = .whileWord -> Whole tokens condition ->
      Braced Inner block body ->
      Sentence Whole Inner (keyword :: (tokens ++ block)) (.loop condition body)
  | block {tokens : List Token} {body : Stmt H} :
      Braced Inner tokens body -> Sentence Whole Inner tokens body
  | simple {tokens : List Token} {stop : Token} {e : Expr H} :
      Whole tokens e -> stop.kind = .dot ->
      Sentence Whole Inner (tokens ++ [stop]) (.expr e)

inductive Statement : List Token -> Stmt H -> Prop where
  | intro {tokens : List Token} {s : Stmt H} :
      Sentence Expression Statement tokens s -> Statement tokens s

end Grammar
end Lisan
