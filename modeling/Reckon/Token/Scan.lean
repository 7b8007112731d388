import Reckon.SyntaxError
import Reckon.Text.Blank
import Reckon.Text.Numeric
import Reckon.Token.Basic
import Reckon.Token.Numeral

/-
Cutting a text into tokens.  A scan skips blanks and takes the longest numeral, the longest name
or one symbol.  A character that begins none of them is an error; the scan stands behind it then
and can be continued.
-/

namespace Reckon

namespace Cursor

def skipBlanks (cursor : Cursor) : Cursor :=
  cursor.pass (cursor.rest.takeWhile isBlank) (cursor.rest.dropWhile isBlank)

def token (cursor : Cursor) (kind : Token.Kind) (text : List Char) : Token :=
  ⟨kind, String.ofList text, ⟨cursor.location, cursor.location.after text⟩⟩

theorem skipBlanks_length (cursor : Cursor) :
    cursor.skipBlanks.rest.length ≤ cursor.rest.length := by
  have hsplit : cursor.rest.takeWhile isBlank ++ cursor.rest.dropWhile isBlank = cursor.rest :=
    List.takeWhile_append_dropWhile
  have hlength := congrArg List.length hsplit
  rw [List.length_append] at hlength
  change (cursor.rest.dropWhile isBlank).length ≤ cursor.rest.length
  omega

end Cursor

def isNameStart (c : Char) : Bool := isAlphabetic c || c == '_'

def isNamePart (c : Char) : Bool := isAlphanumeric c || c == '_'

theorem isNamePart_of_isNameStart {c : Char} (hc : isNameStart c = true) :
    isNamePart c = true := by
  simp only [isNameStart, Bool.or_eq_true] at hc
  simp only [isNamePart, Bool.or_eq_true]
  exact hc.imp_left isAlphanumeric_of_isAlphabetic

/-- Punctuation that looks like an operator but is none. -/
def foreignOperators : List Char := "&|=<>~?:;@$#\\\"'[]\x7b\x7d.`".toList

def faultOf (c : Char) : SyntaxError.Cause :=
  if c ∈ foreignOperators then .unknownOperator c else .unexpectedCharacter c

/-- What stands at the front of a text that does not begin with a blank: its kind, or the fault,
then its text and the text that follows. -/
def scanFront : List Char → Except SyntaxError.Cause Token.Kind × List Char × List Char
  | [] => (.ok .eof, [], [])
  | c :: rest =>
      match Numeral.scan? (c :: rest) with
      | some (numeral, after) => (.ok (.number numeral.value), numeral.text, after)
      | none =>
          if isNameStart c then
            let name := c :: rest.takeWhile isNamePart
            (.ok (.name (String.ofList name)), name, rest.dropWhile isNamePart)
          else
            match Symbol.ofChar? c with
            | some symbol => (.ok (.symbol symbol), [c], rest)
            | none => (.error (faultOf c), [c], rest)

/-- The next token or error, and the cursor behind it. -/
def Cursor.scan (cursor : Cursor) : Except SyntaxError Token × Cursor :=
  let here := cursor.skipBlanks
  let (outcome, text, rest) := scanFront here.rest
  let next := here.pass text rest
  match outcome with
  | .ok kind => (.ok (here.token kind text), next)
  | .error cause => (.error ⟨cause, ⟨here.location, next.location⟩, none⟩, next)

/-- The text and the rest together are what was scanned. -/
theorem scanFront_append (text : List Char) :
    (scanFront text).2.1 ++ (scanFront text).2.2 = text := by
  cases text with
  | nil => rfl
  | cons c rest =>
      cases hnumeral : Numeral.scan? (c :: rest) with
      | some found =>
          obtain ⟨numeral, after⟩ := found
          simp only [scanFront, hnumeral]
          exact Numeral.scan?_append hnumeral
      | none =>
          by_cases hname : isNameStart c = true
          · simp only [scanFront, hnumeral, hname, ↓reduceIte, List.cons_append,
              List.takeWhile_append_dropWhile]
          · cases hsymbol : Symbol.ofChar? c with
            | some symbol => simp [scanFront, hnumeral, hname, hsymbol]
            | none => simp [scanFront, hnumeral, hname, hsymbol]

/-- Only the end of the input has an empty text. -/
theorem scanFront_text_ne_nil (c : Char) (rest : List Char) :
    (scanFront (c :: rest)).2.1 ≠ [] := by
  cases hnumeral : Numeral.scan? (c :: rest) with
  | some found =>
      obtain ⟨numeral, after⟩ := found
      simp only [scanFront, hnumeral]
      exact Numeral.scan?_text_ne_nil hnumeral
  | none =>
      by_cases hname : isNameStart c = true
      · simp [scanFront, hnumeral, hname]
      · cases hsymbol : Symbol.ofChar? c with
        | some symbol => simp [scanFront, hnumeral, hname, hsymbol]
        | none => simp [scanFront, hnumeral, hname, hsymbol]

theorem scanFront_rest_length (c : Char) (rest : List Char) :
    (scanFront (c :: rest)).2.2.length < (c :: rest).length := by
  have hlength := congrArg List.length (scanFront_append (c :: rest))
  have hpositive := List.length_pos_iff.mpr (scanFront_text_ne_nil c rest)
  rw [List.length_append] at hlength
  omega

theorem Cursor.scan_rest (cursor : Cursor) :
    cursor.scan.2.rest = (scanFront cursor.skipBlanks.rest).2.2 := by
  unfold Cursor.scan
  dsimp only
  split <;> rfl

/-- Every token but the end of the input uses up some of the text. -/
theorem Cursor.scan_length {cursor : Cursor} {token : Token}
    (htoken : cursor.scan.1 = .ok token) (heof : token.kind ≠ .eof) :
    cursor.scan.2.rest.length < cursor.rest.length := by
  rw [Cursor.scan_rest]
  refine Nat.lt_of_lt_of_le ?_ cursor.skipBlanks_length
  cases hrest : cursor.skipBlanks.rest with
  | nil =>
      exfalso
      simp only [Cursor.scan, hrest, scanFront, Except.ok.injEq] at htoken
      exact heof (by rw [← htoken]; rfl)
  | cons c rest => exact scanFront_rest_length c rest

/-- A scan of many tokens: what was found, the error that ended it if there was one, and the
cursor at its end. -/
structure ScanRun where
  tokens : List Token
  error : Option SyntaxError
  cursor : Cursor

/-- Scans up to the end of the input or the first error. -/
def Cursor.run (cursor : Cursor) : ScanRun :=
  match hscan : cursor.scan.1 with
  | .error error => ⟨[], some error, cursor.scan.2⟩
  | .ok token =>
      if heof : token.kind = .eof then ⟨[token], none, cursor.scan.2⟩
      else
        have := Cursor.scan_length hscan heof
        let more := cursor.scan.2.run
        ⟨token :: more.tokens, more.error, more.cursor⟩
termination_by cursor.rest.length

/-- The tokens of a text as far as it has any, and the error that ends them if there is one. -/
def scanTokens (source : String) : List Token × Option SyntaxError :=
  let run := (Cursor.ofSource source).run
  (run.tokens, run.error.map (·.within source))

/-- All tokens of a text, the end of the input last. -/
def tokenize (source : String) : Except SyntaxError (List Token) :=
  match scanTokens source with
  | (tokens, none) => .ok tokens
  | (_, some error) => .error error

end Reckon
