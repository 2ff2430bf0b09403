import Treewalk.Proofs.Grammar.Placement
import Treewalk.Evaluation.Statement

/-!
The moments of a run. A node of a program is known by its position, and the blocks around it
with the declarations before it are its static scopes. The execution of a node comes to the
execution of its children as the results of earlier children have it.
-/

namespace Treewalk

def Stmt.declares? : Stmt → Option Token
  | .declare name _ => some name
  | _ => none

/-- The variables declared in the blocks around a node, from the innermost block. -/
abbrev Scopes := List (List Token)

/-- The nearest scope in which a name is declared, counted from the innermost. -/
def Scopes.home? (scopes : Scopes) (name : Symbol) : Option Nat :=
  scopes.findIdx? fun declared => declared.any (·.lexeme.same name)

inductive Node where
  | expression (value : Expr)
  | statement (value : Stmt)

namespace Node

/-- The nodes directly below a node, as they are written. -/
def children : Node → List Node
  | expression (.constant _) => []
  | expression (.group inner) => [expression inner]
  | expression (.unary _ operand) => [expression operand]
  | expression (.binary left _ right) => [expression left, expression right]
  | expression (.logical left _ right) => [expression left, expression right]
  | expression (.var _) => []
  | expression (.assign _ value) => [expression value]
  | expression (.call callee _ arguments) => expression callee :: arguments.map expression
  | statement (.expression value) => [expression value]
  | statement (.print value) => [expression value]
  | statement (.declare _ none) => []
  | statement (.declare _ (some initial)) => [expression initial]
  | statement (.block body) => body.map statement
  | statement (.conditional condition consequent none) =>
      [expression condition, statement consequent]
  | statement (.conditional condition consequent (some alternative)) =>
      [expression condition, statement consequent, statement alternative]
  | statement (.loop condition body) => [expression condition, statement body]

/-- The scopes around a child of a node: a block adds the variables declared before the child. -/
def scopesWithin : Node → Nat → Scopes → Scopes
  | statement (.block body), place, scopes =>
      (body.take place).filterMap Stmt.declares? :: scopes
  | _, _, scopes => scopes

/-- The node at a position below another, with the scopes around it. -/
def at? : Node → List Nat → Scopes → Option (Node × Scopes)
  | node, [], scopes => some (node, scopes)
  | node, place :: path, scopes =>
      match node.children[place]? with
      | none => none
      | some child => child.at? path (node.scopesWithin place scopes)

def declared : Node → List Token
  | expression _ => []
  | statement value => value.declared

def Placed : Node → Prop
  | expression _ => True
  | statement value => value.Placed

end Node

def Program.occurrence? (program : Program) : List Nat → Option (Node × Scopes)
  | [] => none
  | place :: path =>
      match program[place]? with
      | none => none
      | some statement => (Node.statement statement).at? path []

structure Moment where
  node : Node
  frame : FrameId
  world : World

/-- The rounds of a loop that have been completed, with the rounds left before and after. -/
inductive Laps (test : Run Bool) (body : Run Unit) : Nat → World → Nat → World → Prop
  | start (rounds : Nat) (world : World) : Laps test body rounds world rounds world
  | lap {rounds left : Nat} {world tested after last : World} : test world = .ok true tested →
      body tested = .ok () after → Laps test body rounds after left last →
      Laps test body (rounds + 1) world left last

namespace Moment

/-- The execution of a node comes to the execution of one of its children. -/
inductive Enters (rounds : Nat) : Moment → Nat → Moment → Prop
  | group {inner : Expr} {frame : FrameId} {world : World} :
      Enters rounds ⟨.expression (.group inner), frame, world⟩ 0 ⟨.expression inner, frame, world⟩
  | operand {operator : Token} {operand : Expr} {frame : FrameId} {world : World} :
      Enters rounds ⟨.expression (.unary operator operand), frame, world⟩ 0
        ⟨.expression operand, frame, world⟩
  | left {left right : Expr} {operator : Token} {frame : FrameId} {world : World} :
      Enters rounds ⟨.expression (.binary left operator right), frame, world⟩ 0
        ⟨.expression left, frame, world⟩
  | right {left right : Expr} {operator : Token} {frame : FrameId} {world after : World}
      {value : Value} : left.evaluate frame world = .ok value after →
      Enters rounds ⟨.expression (.binary left operator right), frame, world⟩ 1
        ⟨.expression right, frame, after⟩
  | first {left right : Expr} {operator : Token} {frame : FrameId} {world : World} :
      Enters rounds ⟨.expression (.logical left operator right), frame, world⟩ 0
        ⟨.expression left, frame, world⟩
  | second {left right : Expr} {operator : Token} {frame : FrameId} {world after : World}
      {value : Value} : left.evaluate frame world = .ok value after →
      value.decides operator = false →
      Enters rounds ⟨.expression (.logical left operator right), frame, world⟩ 1
        ⟨.expression right, frame, after⟩
  | assigned {name : Token} {value : Expr} {frame : FrameId} {world : World} :
      Enters rounds ⟨.expression (.assign name value), frame, world⟩ 0
        ⟨.expression value, frame, world⟩
  | callee {callee : Expr} {closing : Token} {arguments : List Expr} {frame : FrameId}
      {world : World} : Enters rounds ⟨.expression (.call callee closing arguments), frame, world⟩
        0 ⟨.expression callee, frame, world⟩
  | argument {callee argument : Expr} {closing : Token} {arguments : List Expr} {place : Nat}
      {frame : FrameId} {world called after : World} {value : Value} {values : List Value} :
      callee.evaluate frame world = .ok value called →
      Expr.evaluateRow frame (arguments.take place) called = .ok values after →
      arguments[place]? = some argument →
      Enters rounds ⟨.expression (.call callee closing arguments), frame, world⟩ (place + 1)
        ⟨.expression argument, frame, after⟩
  | expression {value : Expr} {frame : FrameId} {world : World} :
      Enters rounds ⟨.statement (.expression value), frame, world⟩ 0
        ⟨.expression value, frame, world⟩
  | print {value : Expr} {frame : FrameId} {world : World} :
      Enters rounds ⟨.statement (.print value), frame, world⟩ 0 ⟨.expression value, frame, world⟩
  | initial {name : Token} {initial : Expr} {frame : FrameId} {world : World} :
      Enters rounds ⟨.statement (.declare name (some initial)), frame, world⟩ 0
        ⟨.expression initial, frame, world⟩
  | block {body : List Stmt} {statement : Stmt} {place : Nat} {frame : FrameId}
      {world after : World} :
      Stmt.executeRow rounds world.store.frames.size (body.take place)
        { world with store := (world.store.push frame).2 } = .ok () after →
      body[place]? = some statement →
      Enters rounds ⟨.statement (.block body), frame, world⟩ place
        ⟨.statement statement, world.store.frames.size, after⟩
  | condition {condition : Expr} {consequent : Stmt} {alternative : Option Stmt}
      {frame : FrameId} {world : World} :
      Enters rounds ⟨.statement (.conditional condition consequent alternative), frame, world⟩ 0
        ⟨.expression condition, frame, world⟩
  | consequent {condition : Expr} {consequent : Stmt} {alternative : Option Stmt}
      {frame : FrameId} {world after : World} : condition.holds frame world = .ok true after →
      Enters rounds ⟨.statement (.conditional condition consequent alternative), frame, world⟩ 1
        ⟨.statement consequent, frame, after⟩
  | alternative {condition : Expr} {consequent alternative : Stmt} {frame : FrameId}
      {world after : World} : condition.holds frame world = .ok false after →
      Enters rounds
        ⟨.statement (.conditional condition consequent (some alternative)), frame, world⟩ 2
        ⟨.statement alternative, frame, after⟩
  | test {condition : Expr} {body : Stmt} {left : Nat} {frame : FrameId} {world last : World} :
      Laps (condition.holds frame) (body.execute rounds frame) rounds world (left + 1) last →
      Enters rounds ⟨.statement (.loop condition body), frame, world⟩ 0
        ⟨.expression condition, frame, last⟩
  | body {condition : Expr} {body : Stmt} {left : Nat} {frame : FrameId}
      {world last tested : World} :
      Laps (condition.holds frame) (body.execute rounds frame) rounds world (left + 1) last →
      condition.holds frame last = .ok true tested →
      Enters rounds ⟨.statement (.loop condition body), frame, world⟩ 1
        ⟨.statement body, frame, tested⟩

def Finishes (rounds : Nat) : Moment → World → Prop
  | ⟨.expression value, frame, world⟩, after =>
      ∃ result, value.evaluate frame world = .ok result after
  | ⟨.statement value, frame, world⟩, after => value.execute rounds frame world = .ok () after

/-- The worlds to which a run comes while it executes a node: when it starts, all that it comes to
while it executes a child, and when that has ended. -/
inductive During (rounds : Nat) : Moment → World → Prop
  | start (moment : Moment) : During rounds moment moment.world
  | child {outer inner : Moment} {place : Nat} {world : World} :
      outer.Enters rounds place inner → During rounds inner world → During rounds outer world
  | after {outer inner : Moment} {place : Nat} {world : World} :
      outer.Enters rounds place inner → inner.Finishes rounds world → During rounds outer world

end Moment

/-- The run of a program comes to the execution of the node at a position. -/
inductive Program.Starts (rounds : Nat) (program : Program) (start : World) :
    List Nat → Moment → Prop
  | begins {place : Nat} {statement : Stmt} {world : World} :
      Stmt.executeRow rounds FrameId.global (program.take place) start = .ok () world →
      program[place]? = some statement →
      Starts rounds program start [place] ⟨.statement statement, FrameId.global, world⟩
  | enters {path : List Nat} {place : Nat} {outer inner : Moment} :
      Starts rounds program start path outer → outer.Enters rounds place inner →
      Starts rounds program start (path ++ [place]) inner

/-- The node at a position is being executed in its frame, and the run has come to some world. -/
def Program.Executing (rounds : Nat) (program : Program) (start : World) (path : List Nat)
    (moment : Moment) : Prop :=
  ∃ begun, Starts rounds program start path { moment with world := begun } ∧
    Moment.During rounds { moment with world := begun } moment.world

end Treewalk
