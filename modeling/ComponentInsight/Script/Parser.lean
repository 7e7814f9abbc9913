import ComponentInsight.Script.Dialect
import ComponentInsight.Script.Lexer
import ComponentInsight.Script.Tree

/-!
# Parsers

A parser reads tokens from a script under a context. Two things can go wrong. A parser *fails* when
the tokens do not fit; another reading may then be tried from the same place (`attempt`). A parser
records a *flaw* when the tokens fit but the script is not valid; it goes on, and a flawed script is
rejected in the end.

Loops are bounded by the length of the script (`loop`), recursion by the depth of
`ComponentInsight.Script.grammar`. A parser whose bound is exhausted has told nothing about the
script; this ends the whole reading, unlike a failure, and so a reading that ends in any other way
never came to a bound.
-/

namespace ComponentInsight.Script

/-- What the surroundings of an expression or statement permit. -/
structure Context where
  /-- `in` is an operator; not so in the head of a `for`. -/
  allowIn : Bool
  /-- `yield` is an operator. -/
  yields : Bool
  /-- `await` is an operator. -/
  awaits : Bool
  /-- `return` is permitted. -/
  returns : Bool
  /-- Declarations stand for something defined elsewhere. -/
  ambient : Bool
  /-- A conditional type may follow. -/
  conditionalTypes : Bool
  /-- The expression of a decorator, which ends before a bracket. -/
  decorator : Bool

/-- The script and the context it is read in. -/
structure Environment where
  text : Array Char
  dialect : Dialect
  context : Context

/-- Where a parser stands. -/
structure State where
  token : Token
  /-- The end of the token before. -/
  lastStop : Nat
  flawed : Bool
  /-- Positions of object entries `name = value` that are still to be read as a pattern. -/
  defaults : List Nat
  /-- Positions of literals whose last item is a spread with a comma behind it. -/
  openSpreads : List Nat
  /-- Names exported so far, in reverse. -/
  exports : List String
  /-- Positions of parentheses known not to begin an arrow function. -/
  notArrow : List Nat

/-- The outcome of a parser. A failure keeps what was learned about parentheses. -/
inductive Reply (α : Type) where
  | ok (value : α) (state : State)
  | fail (notArrow : List Nat)
  /-- A bound on loops or recursion was too low. -/
  | exhausted

/-- A parser for values of a type. -/
def Parser (α : Type) : Type := Environment → State → Reply α

namespace Parser

instance : Monad Parser where
  pure a := fun _ s => .ok a s
  bind p f := fun e s =>
    match p e s with
    | .ok a s => f a e s
    | .fail m => .fail m
    | .exhausted => .exhausted

variable {α : Type}

/-- No reading fits. -/
def fail : Parser α := fun _ s => .fail s.notArrow

/-- The bound is reached. -/
def exhausted : Parser α := fun _ _ => .exhausted

def environment : Parser Environment := fun e s => .ok e s

def getState : Parser State := fun _ s => .ok s s

def setState (s : State) : Parser Unit := fun _ _ => .ok () s

def modifyState (f : State → State) : Parser Unit := fun _ s => .ok () (f s)

def context : Parser Context := fun e s => .ok e.context s

/-- Run a parser under a changed context. -/
def within (f : Context → Context) (p : Parser α) : Parser α :=
  fun e s => p { e with context := f e.context } s

/-- Record that the script is not valid. -/
def flaw : Parser Unit := modifyState fun s => { s with flawed := true }

def flawIf (b : Bool) : Parser Unit := modifyState fun s => { s with flawed := s.flawed || b }

/-- Run a parser; if it fails, stay in place. -/
def attempt (p : Parser α) : Parser (Option α) := fun e s =>
  match p e s with
  | .ok a s' => .ok (some a) s'
  | .fail m => .ok none { s with notArrow := m }
  | .exhausted => .exhausted

/-- Run a parser and come back, with its value if it did not fail. -/
def lookahead (p : Parser α) : Parser (Option α) := fun e s =>
  match p e s with
  | .ok a _ => .ok (some a) s
  | .fail m => .ok none { s with notArrow := m }
  | .exhausted => .exhausted

/-- Whether a condition holds further on. -/
def ahead (p : Parser Bool) : Parser Bool := do return (← lookahead p).getD false

/-- Whether a step is to be repeated with a new value or has come to an end. -/
inductive Step (σ ρ : Type) where
  | again (s : σ)
  | done (r : ρ)

/-- Repeat a step at most `fuel` times. -/
def loopFuel {σ ρ : Type} (step : σ → Parser (Step σ ρ)) : Nat → σ → Parser ρ
  | 0, _ => exhausted
  | fuel + 1, s => do
    match ← step s with
    | .again s => loopFuel step fuel s
    | .done r => return r

/-- Repeat a step that reads at least one token whenever it is to be repeated. -/
def loop {σ ρ : Type} (step : σ → Parser (Step σ ρ)) (s : σ) : Parser ρ := do
  loopFuel step ((← environment).text.size + 2) s

/-! ### Tokens -/

def token : Parser Token := fun _ s => .ok s.token s

def kind : Parser TokenKind := fun _ s => .ok s.token.kind s

/-- Where the current token begins. -/
def start : Parser Nat := fun _ s => .ok s.token.start s

/-- The range from a position to the end of the last token. -/
def spanFrom (i : Nat) : Parser Span := fun _ s => .ok ⟨i, s.lastStop⟩ s

/-- Replace the current token. -/
def setToken (t : Token) : Parser Unit :=
  modifyState fun s => { s with token := t, flawed := s.flawed || t.flawed }

/-- Go on to a token read by a lexer from the end of the current one. -/
def bumpWith (lex : Array Char → Nat → Token) : Parser Unit := fun e s =>
  let t := lex e.text s.token.stop
  .ok () { s with token := t, lastStop := s.token.stop, flawed := s.flawed || t.flawed }

/-- Go on to the next token. -/
def bump : Parser Unit := bumpWith Lexer.token

/-- A line ends before the current token. -/
def onNewLine : Parser Bool := fun _ s => .ok s.token.newline s

def isTyped : Parser Bool := fun e s => .ok e.dialect.typed s

def isMarkup : Parser Bool := fun e s => .ok e.dialect.markup s

def atPunct (p : String) : Parser Bool := fun _ s =>
  .ok (match s.token.kind with | .punct q => p == q | _ => false) s

def atAnyPunct (ps : List String) : Parser Bool := fun _ s =>
  .ok (match s.token.kind with | .punct q => ps.contains q | _ => false) s

/-- At a word written without escapes. -/
def atWord (w : String) : Parser Bool := fun _ s =>
  .ok (match s.token.kind with | .word v escaped => w == v && !escaped | _ => false) s

def atAnyWord (ws : List String) : Parser Bool := fun _ s =>
  .ok (match s.token.kind with | .word v escaped => ws.contains v && !escaped | _ => false) s

/-- The word at the current token, if it is one without escapes. -/
def keyword : Parser String := fun _ s =>
  .ok (match s.token.kind with | .word v false => v | _ => "") s

def atEnd : Parser Bool := fun _ s => .ok (s.token.kind == .eof) s

/-- At a word that may be an identifier. -/
def atIdentifier : Parser Bool := fun e s =>
  .ok (match s.token.kind with
    | .word v _ =>
      !isReserved v && !(v == "yield" && e.context.yields) && !(v == "await" && e.context.awaits)
    | _ => false) s

/-- At any word. -/
def atName : Parser Bool := fun _ s =>
  .ok (match s.token.kind with | .word _ _ => true | _ => false) s

def atString : Parser Bool := fun _ s =>
  .ok (match s.token.kind with | .string .. => true | _ => false) s

def atNumber : Parser Bool := fun _ s =>
  .ok (match s.token.kind with | .number _ | .bigint => true | _ => false) s

def atPrivate : Parser Bool := fun _ s =>
  .ok (match s.token.kind with | .privateName _ => true | _ => false) s

def atTemplate : Parser Bool := fun _ s =>
  .ok (match s.token.kind with | .template .. => true | _ => false) s

/-- Read a punctuator if it is there. -/
def eatPunct (p : String) : Parser Bool := do
  if ← atPunct p then bump; return true else return false

/-- Read a word if it is there. -/
def eatWord (w : String) : Parser Bool := do
  if ← atWord w then bump; return true else return false

def expectPunct (p : String) : Parser Unit := do
  unless ← eatPunct p do fail

def expectWord (w : String) : Parser Unit := do
  unless ← eatWord w do fail

/-- Any word, decoded. -/
def name : Parser String := do
  match ← kind with
  | .word v _ => bump; return v
  | _ => fail

/-- A word used as an identifier, decoded. -/
def identifier : Parser String := do
  if ← atIdentifier then name else fail

def stringLiteral : Parser String := do
  match ← kind with
  | .string v _ => bump; return v
  | _ => fail

/-- Whether a condition holds of the token after this one. -/
def next (p : Parser Bool) : Parser Bool := ahead (do bump; p)

/-- Whether a condition holds of the token after this one, on the same line. -/
def nextOnLine (p : Parser Bool) : Parser Bool :=
  ahead (do bump; if ← onNewLine then return false else p)

/-- Whether a statement may end before the current token. -/
def canEnd : Parser Bool := do
  if ← atPunct ";" then return true
  if ← atPunct closeBrace then return true
  if ← atEnd then return true
  onNewLine

/-- The end of a statement. -/
def semicolon : Parser Unit := do
  if ← eatPunct ";" then return ()
  unless ← canEnd do fail

/-- Items separated by commas up to a closing punctuator, which is not read; whether a comma stands
behind the last item. -/
def commaList (close : String) (item : Parser α) : Parser (List α × Bool) := do
  if ← atPunct close then return ([], false)
  let first ← item
  loop (fun (items : List α) => do
    if ← atPunct close then return .done (items.reverse, false)
    expectPunct ","
    if ← atPunct close then return .done (items.reverse, true)
    return .again ((← item) :: items)) [first]

end Parser

end ComponentInsight.Script
