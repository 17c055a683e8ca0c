import Timbre.Program.Source

/-!
# The grammar of programs

Which lists of tokens are terms, definitions, clauses and programs, and what they
stand for, said without a parser:

    program    := (statement ","?)*
    statement  := definition | expression
    expression := sum (comparison sum)*
    sum        := product (("+" | "-") product)*
    product    := application (("*" | "/") application)*
    application := atom atom*
    atom       := number | identifier | builtin | "(" expression ")"
                | "\" identifier "." expression
                | "case" expression "of" clause ("," clause)* "end"
                | "if" expression "then" expression "else" expression "end"
                | "let" definition ("," definition)* "in" expression "end"
    clause     := (number | "_") "->" expression
    definition := identifier "=" expression

A repetition of operands is derived from the left, so that operators and
applications group to the left. The grammar is ambiguous: where a lambda, an
application or a statement ends is left open. It uses every token of a list once
and in order.
-/

namespace Timbre.Grammar

/-- The levels of infix operators, the loosest first. -/
inductive Precedence where
  | comparison | additive | multiplicative

/-- The forms of terms: operands joined by the operators of a level, an atom
applied to others, and an atom. -/
inductive Form where
  | operands (level : Precedence)
  | application
  | atom

/-- The loosest form. -/
abbrev Form.expression : Form := .operands .comparison

namespace Precedence

/-- The marks of a level, each with the operator that it stands for. -/
def signs : Precedence → List (Mark × BinaryBuiltin)
  | comparison =>
      [(.equal, .eq), (.unequal, .neq), (.greater, .gt), (.atLeast, .gteq), (.less, .lt),
        (.atMost, .lteq)]
  | additive => [(.plus, .plus), (.minus, .minus)]
  | multiplicative => [(.star, .mult), (.slash, .divide)]

/-- The form of what the operators of a level join. -/
def operand : Precedence → Form
  | comparison => .operands .additive
  | additive => .operands .multiplicative
  | multiplicative => .application

end Precedence

/-- What a list of tokens can be derived from. -/
inductive Symbol where
  | term (form : Form)
  | clause
  | clauses
  | definition
  | definitions

/-- What is derived together with the tokens. -/
@[reducible] def Symbol.Tree : Symbol → Type
  | term _ => Term
  | clause => Clause
  | clauses => List Clause
  | definition => Definition
  | definitions => List Definition

/-- A list of tokens is derived from a symbol and stands for a tree. -/
inductive Derives : (symbol : Symbol) → List Located → symbol.Tree → Prop where
  | operand {level : Precedence} {tokens : List Located} {term : Term}
      (first : Derives (.term level.operand) tokens term) :
      Derives (.term (.operands level)) tokens term
  | joined {level : Precedence} {before after : List Located} {left right : Term} {sign : Mark}
      {operator : BinaryBuiltin} (p : Position) (listed : (sign, operator) ∈ level.signs)
      (first : Derives (.term (.operands level)) before left)
      (second : Derives (.term level.operand) after right) :
      Derives (.term (.operands level)) (before ++ ⟨.mark sign, p⟩ :: after)
        (.application (.application (.builtin (.binary operator) p.line) left p.line) right p.line)
  | function {tokens : List Located} {term : Term} (first : Derives (.term .atom) tokens term) :
      Derives (.term .application) tokens term
  | applied {before after : List Located} {function argument : Term} (start : Located)
      (first : Derives (.term .application) before function)
      (second : Derives (.term .atom) (start :: after) argument) :
      Derives (.term .application) (before ++ start :: after)
        (.application function argument start.position.line)
  | number (value : Float) (p : Position) :
      Derives (.term .atom) [⟨.number value, p⟩] (.number value p.line)
  | identifier (name : String) (p : Position) :
      Derives (.term .atom) [⟨.identifier name, p⟩] (.identifier name p.line)
  | builtin (operator : Builtin) (p : Position) :
      Derives (.term .atom) [⟨.builtin operator, p⟩] (.builtin operator p.line)
  | parenthesized {inner : List Located} {term : Term} (p q : Position)
      (expression : Derives (.term .expression) inner term) :
      Derives (.term .atom) (⟨.mark .openParen, p⟩ :: inner ++ [⟨.mark .closeParen, q⟩]) term
  | lambda {inner : List Located} {body : Term} (name : String) (p q r : Position)
      (expression : Derives (.term .expression) inner body) :
      Derives (.term .atom)
        (⟨.mark .backslash, p⟩ :: ⟨.identifier name, q⟩ :: ⟨.mark .dot, r⟩ :: inner)
        (.lambda name body p.line)
  | selection {inner listed : List Located} {scrutinee : Term} {clauses : List Clause}
      (p q r : Position) (expression : Derives (.term .expression) inner scrutinee)
      (choices : Derives .clauses listed clauses) :
      Derives (.term .atom)
        (⟨.keyword .caseWord, p⟩ :: inner ++ ⟨.keyword .ofWord, q⟩ :: listed ++
          [⟨.keyword .endWord, r⟩])
        (.selection scrutinee clauses p.line)
  | conditional {tested first second : List Located} {condition consequent alternative : Term}
      (p q r s : Position) (decision : Derives (.term .expression) tested condition)
      (positive : Derives (.term .expression) first consequent)
      (negative : Derives (.term .expression) second alternative) :
      Derives (.term .atom)
        (⟨.keyword .ifWord, p⟩ :: tested ++ ⟨.keyword .thenWord, q⟩ :: first ++
          ⟨.keyword .elseWord, r⟩ :: second ++ [⟨.keyword .endWord, s⟩])
        (.conditional condition consequent alternative p.line)
  | binding {listed inner : List Located} {definitions : List Definition} {body : Term}
      (p q r : Position) (bound : Derives .definitions listed definitions)
      (expression : Derives (.term .expression) inner body) :
      Derives (.term .atom)
        (⟨.keyword .letWord, p⟩ :: listed ++ ⟨.keyword .inWord, q⟩ :: inner ++
          [⟨.keyword .endWord, r⟩])
        (.binding definitions body p.line)
  | numbered {inner : List Located} {result : Term} (value : Float) (p q : Position)
      (expression : Derives (.term .expression) inner result) :
      Derives .clause (⟨.number value, p⟩ :: ⟨.mark .arrow, q⟩ :: inner)
        ⟨some (.number value p.line), result, p.line⟩
  | wildcard {inner : List Located} {result : Term} (p q : Position)
      (expression : Derives (.term .expression) inner result) :
      Derives .clause (⟨.mark .underscore, p⟩ :: ⟨.mark .arrow, q⟩ :: inner)
        ⟨none, result, p.line⟩
  | lastClause {tokens : List Located} {clause : Clause} (last : Derives .clause tokens clause) :
      Derives .clauses tokens [clause]
  | moreClauses {before after : List Located} {clause : Clause} {others : List Clause}
      (p : Position) (first : Derives .clause before clause)
      (rest : Derives .clauses after others) :
      Derives .clauses (before ++ ⟨.mark .comma, p⟩ :: after) (clause :: others)
  | named {inner : List Located} {body : Term} (name : String) (p q : Position)
      (expression : Derives (.term .expression) inner body) :
      Derives .definition (⟨.identifier name, p⟩ :: ⟨.mark .assign, q⟩ :: inner)
        ⟨name, body, p.line⟩
  | lastDefinition {tokens : List Located} {definition : Definition}
      (last : Derives .definition tokens definition) :
      Derives .definitions tokens [definition]
  | moreDefinitions {before after : List Located} {definition : Definition}
      {others : List Definition} (p : Position)
      (first : Derives .definition before definition)
      (rest : Derives .definitions after others) :
      Derives .definitions (before ++ ⟨.mark .comma, p⟩ :: after) (definition :: others)

/-- A list of tokens is a statement. The line of an expression is that of its
first token. -/
inductive DerivesStatement : List Located → Statement → Prop where
  | definition {tokens : List Located} {definition : Definition}
      (derived : Derives .definition tokens definition) :
      DerivesStatement tokens (.definition definition)
  | expression {after : List Located} {term : Term} (start : Located)
      (derived : Derives (.term .expression) (start :: after) term) :
      DerivesStatement (start :: after) (.expression term start.position.line)

/-- A list of tokens is a program: statements, each with an optional comma after
it. -/
inductive DerivesProgram : List Located → List Statement → Prop where
  | empty : DerivesProgram [] []
  | next {before after : List Located} {statement : Statement} {others : List Statement}
      (first : DerivesStatement before statement) (rest : DerivesProgram after others) :
      DerivesProgram (before ++ after) (statement :: others)
  | nextComma {before after : List Located} {statement : Statement} {others : List Statement}
      (p : Position) (first : DerivesStatement before statement)
      (rest : DerivesProgram after others) :
      DerivesProgram (before ++ ⟨.mark .comma, p⟩ :: after) (statement :: others)

/-- Nothing but a program is derived from no token. -/
theorem Derives.nonempty {symbol : Symbol} {tokens : List Located} {tree : symbol.Tree}
    (derived : Derives symbol tokens tree) : tokens ≠ [] := by
  induction derived <;> simp_all

/-- No statement is empty. -/
theorem DerivesStatement.nonempty {tokens : List Located} {statement : Statement}
    (derived : DerivesStatement tokens statement) : tokens ≠ [] := by
  cases derived with
  | definition derived => exact derived.nonempty
  | expression start derived => simp

end Timbre.Grammar
