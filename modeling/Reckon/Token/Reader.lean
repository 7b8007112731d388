import Reckon.Token.Scan

/-
A reader of one source that hands out its tokens step by step.  Any number of iterators run over
it, but they share one cursor, so that each of them takes up the scan where the last one left it.
-/

namespace Reckon

/-- An iterator that has not been asked yet, one on its way, and one that has come to the end of
the input or to an error. -/
inductive Iterator
  | fresh
  | running
  | ended
deriving DecidableEq, Repr

structure Reader where
  source : String
  cursor : Cursor
  iterators : Array Iterator

namespace Reader

def ofSource (source : String) : Reader := ⟨source, Cursor.ofSource source, #[]⟩

/-- A new iterator; its number is the count of those before it. -/
def iterate (reader : Reader) : Reader :=
  { reader with iterators := reader.iterators.push .fresh }

def reset (reader : Reader) : Reader := { reader with cursor := Cursor.ofSource reader.source }

/-- Scans once on behalf of an iterator. -/
def advance (reader : Reader) (iterator : Nat) : Except SyntaxError Token × Reader :=
  let (outcome, cursor) := reader.cursor.scan
  let state : Iterator := match outcome with
    | .ok token => if token.isEof then .ended else .running
    | .error _ => .ended
  (outcome.mapError (·.within reader.source),
    { reader with cursor, iterators := reader.iterators.setIfInBounds iterator state })

/-- What an iterator gives next, and nothing if it has ended.  At its first step it takes the
cursor back to the beginning of the source. -/
def next (reader : Reader) (iterator : Nat) : Option (Except SyntaxError Token) × Reader :=
  match reader.iterators[iterator]? with
  | some .fresh => (reader.reset.advance iterator).map some id
  | some .running => (reader.advance iterator).map some id
  | _ => (none, reader)

/-- All tokens from the beginning of the source. -/
def tokenize (reader : Reader) : Except SyntaxError (List Token) × Reader :=
  let run := reader.reset.cursor.run
  let outcome := match run.error with
    | some error => .error (error.within reader.source)
    | none => .ok run.tokens
  (outcome, { reader with cursor := run.cursor })

def line? (reader : Reader) (number : Int) : Option String := lineAt? reader.source number

/-- What a reader can be asked for. -/
inductive Request
  | iterate
  | next (iterator : Nat)
  | tokenize
  | line (number : Int)
deriving DecidableEq, Repr

inductive Reply
  | ready
  | token (token : Token)
  | stop
  | tokens (tokens : List Token)
  | failed (error : SyntaxError)
  | line (line : Option String)
deriving DecidableEq

def reply (reader : Reader) : Request → Reply × Reader
  | .iterate => (.ready, reader.iterate)
  | .next iterator =>
      match reader.next iterator with
      | (some (.ok token), after) => (.token token, after)
      | (some (.error error), after) => (.failed error, after)
      | (none, after) => (.stop, after)
  | .tokenize =>
      match reader.tokenize with
      | (.ok tokens, after) => (.tokens tokens, after)
      | (.error error, after) => (.failed error, after)
  | .line number => (.line (reader.line? number), reader)

/-- The replies to a sequence of requests, each with the cursor's location behind it. -/
def replies (reader : Reader) : List Request → List (Reply × Location)
  | [] => []
  | request :: rest =>
      let (reply, after) := reader.reply request
      (reply, after.cursor.location) :: after.replies rest

end Reader

end Reckon
