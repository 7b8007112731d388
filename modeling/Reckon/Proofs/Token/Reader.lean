import Reckon.Proofs.Token.Position
import Reckon.Proofs.Token.Scan
import Reckon.Token.Reader

/-
Readers as one cursor.  All iterators of a reader, and the readings of all its tokens, take the
items of one endless scan in turn; the first step of an iterator and every reading of all tokens
begin it anew.
-/

namespace Reckon

/-- The cursor behind a number of scans from the front of a source. -/
def Cursor.behindScans (source : String) : Nat → Cursor
  | 0 => ofSource source
  | count + 1 => (behindScans source count).scan.2

/-- The endless scan of a source: what its scans find, one after the other.  It goes on behind a
character at fault, and at the end of the source it finds the end again and again. -/
def endless (source : String) (index : Nat) : Except SyntaxError Token :=
  (Cursor.behindScans source index).scan.1.mapError (·.within source)

namespace Reader

variable {source : String} {reader : Reader} {iterator other count : Nat}

/-- The reader behind a sequence of requests. -/
def after (reader : Reader) (requests : List Request) : Reader :=
  requests.foldl (fun reader request => (reader.reply request).2) reader

/-- The requests, each with its reply. -/
def dialogue (reader : Reader) (requests : List Request) : List (Request × Reply) :=
  requests.zip ((reader.replies requests).map Prod.fst)

def Reply.ofScan : Except SyntaxError Token → Reply
  | .ok found => .token found
  | .error error => .failed error

/-- The reply is the end of the input or an error. -/
def Reply.IsLast : Reply → Prop
  | .token found => found.kind = .eof
  | .failed _ => True
  | _ => False

/-- How many iterators there are. -/
def created (log : List (Request × Reply)) : Nat := (log.map Prod.fst).count .iterate

/-- What an iterator has given so far. -/
def given (iterator : Nat) (log : List (Request × Reply)) : List Reply :=
  (log.filter fun entry => decide (entry.1 = .next iterator ∧ entry.2 ≠ .stop)).map Prod.snd

/-- The dialogues with a reader that takes everything from the endless scan, each with the number
of scans since the scan was last begun anew.  It is begun anew by an iterator that has given
nothing so far and by a reading of all tokens.  An iterator that has given the end or an error
gives nothing more. -/
inductive Session (source : String) : List (Request × Reply) → Nat → Prop
  | start : Session source [] 0
  | iterate {log : List (Request × Reply)} {count : Nat} (hsession : Session source log count) :
      Session source (log ++ [(.iterate, .ready)]) count
  | line {log : List (Request × Reply)} {count : Nat} (hsession : Session source log count)
      (number : Int) :
      Session source (log ++ [(.line number, .line (lineAt? source number))]) count
  | first {log : List (Request × Reply)} {count iterator : Nat}
      (hsession : Session source log count) (hthere : iterator < created log)
      (hfresh : given iterator log = []) :
      Session source (log ++ [(.next iterator, .ofScan (endless source 0))]) 1
  | more {log : List (Request × Reply)} {count iterator : Nat}
      (hsession : Session source log count) (hbegun : given iterator log ≠ [])
      (hrunning : ∀ reply ∈ given iterator log, ¬reply.IsLast) :
      Session source (log ++ [(.next iterator, .ofScan (endless source count))]) (count + 1)
  | stop {log : List (Request × Reply)} {count iterator : Nat}
      (hsession : Session source log count)
      (hended : created log ≤ iterator ∨ ∃ reply ∈ given iterator log, reply.IsLast) :
      Session source (log ++ [(.next iterator, .stop)]) count
  | tokens {log : List (Request × Reply)} {count : Nat} {body : List Token} {eof : Token}
      (hsession : Session source log count)
      (hscans : ∀ index token, (body ++ [eof])[index]? = some token →
        endless source index = .ok token)
      (hbody : ∀ token ∈ body, token.kind ≠ .eof) (heof : eof.kind = .eof) :
      Session source (log ++ [(.tokenize, .tokens (body ++ [eof]))]) (body.length + 1)
  | failed {log : List (Request × Reply)} {count : Nat} {body : List Token}
      {error : SyntaxError} (hsession : Session source log count)
      (hscans : ∀ index token, body[index]? = some token → endless source index = .ok token)
      (hbody : ∀ token ∈ body, token.kind ≠ .eof)
      (herror : endless source body.length = .error error) :
      Session source (log ++ [(.tokenize, .failed error)]) (body.length + 1)

/-- What an iterator may have given in its state, if it is there at all. -/
def Fits : Option Iterator → List Reply → Prop
  | none, replies => replies = []
  | some .fresh, replies => replies = []
  | some .running, replies => replies ≠ [] ∧ ∀ reply ∈ replies, ¬reply.IsLast
  | some .ended, replies => ∃ reply ∈ replies, reply.IsLast

/-- The reader stands where this dialogue leads. -/
structure Reflects (source : String) (reader : Reader) (log : List (Request × Reply))
    (count : Nat) : Prop where
  session : Session source log count
  source_eq : reader.source = source
  cursor_eq : reader.cursor = Cursor.behindScans source count
  size_eq : reader.iterators.size = created log
  fits : ∀ iterator, Fits reader.iterators[iterator]? (given iterator log)

/-- The state of an iterator that has made a scan. -/
def stateAfter : Except SyntaxError Token → Iterator
  | .ok token => if token.isEof then .ended else .running
  | .error _ => .ended

/-- The reader when an iterator has made the scan of this number. -/
def scannedBy (reader : Reader) (iterator count : Nat) : Reader where
  source := reader.source
  cursor := Cursor.behindScans reader.source (count + 1)
  iterators := reader.iterators.setIfInBounds iterator (stateAfter (endless reader.source count))

theorem advance_eq (hcursor : reader.cursor = Cursor.behindScans reader.source count)
    (iterator : Nat) :
    reader.advance iterator = (endless reader.source count, reader.scannedBy iterator count) := by
  simp only [advance, scannedBy, endless, Cursor.behindScans, hcursor]
  cases (Cursor.behindScans reader.source count).scan.1 <;> rfl

theorem reply_next_of_some {outcome : Except SyntaxError Token} {next : Reader}
    (hnext : reader.next iterator = (some outcome, next)) :
    reader.reply (.next iterator) = (.ofScan outcome, next) := by
  rw [reply, hnext]
  cases outcome <;> rfl

theorem reply_next_fresh (hiterator : reader.iterators[iterator]? = some .fresh) :
    reader.reply (.next iterator) =
      (.ofScan (endless reader.source 0), reader.scannedBy iterator 0) := by
  have hadvance : reader.reset.advance iterator =
      (endless reader.source 0, reader.scannedBy iterator 0) := advance_eq rfl iterator
  apply reply_next_of_some
  rw [next, hiterator]
  exact congrArg (Prod.map some id) hadvance

theorem reply_next_running (hiterator : reader.iterators[iterator]? = some .running)
    (hcursor : reader.cursor = Cursor.behindScans reader.source count) :
    reader.reply (.next iterator) =
      (.ofScan (endless reader.source count), reader.scannedBy iterator count) := by
  apply reply_next_of_some
  rw [next, hiterator]
  exact congrArg (Prod.map some id) (advance_eq hcursor iterator)

theorem reply_tokenize (reader : Reader) :
    reader.reply .tokenize =
      (match (Cursor.ofSource reader.source).run.error with
        | none => .tokens (Cursor.ofSource reader.source).run.tokens
        | some error => .failed (error.within reader.source),
      { reader with cursor := (Cursor.ofSource reader.source).run.cursor }) := by
  simp only [reply, tokenize, reset]
  cases (Cursor.ofSource reader.source).run.error <;> rfl

theorem reply_next_ended (hiterator : reader.iterators[iterator]? = some .ended) :
    reader.reply (.next iterator) = (.stop, reader) := by
  simp only [reply, next, hiterator]

theorem reply_next_none (hiterator : reader.iterators[iterator]? = none) :
    reader.reply (.next iterator) = (.stop, reader) := by
  simp only [reply, next, hiterator]

variable {log : List (Request × Reply)} {request : Request} {reply : Reply}

theorem created_append (log : List (Request × Reply)) (request : Request) (reply : Reply) :
    created (log ++ [(request, reply)]) =
      created log + if request = .iterate then 1 else 0 := by
  simp [created, List.count_singleton]

theorem given_append_of_ne (hrequest : request ≠ .next iterator) (reply : Reply) :
    given iterator (log ++ [(request, reply)]) = given iterator log := by
  simp [given, hrequest]

theorem given_append_stop (iterator : Nat) (log : List (Request × Reply)) (request : Request) :
    given iterator (log ++ [(request, .stop)]) = given iterator log := by
  simp [given]

theorem given_append_ofScan (iterator : Nat) (log : List (Request × Reply))
    (outcome : Except SyntaxError Token) :
    given iterator (log ++ [(.next iterator, .ofScan outcome)]) =
      given iterator log ++ [.ofScan outcome] := by
  cases outcome <;> simp [given, Reply.ofScan]

/-- An iterator that goes on has given nothing that is last. -/
theorem fits_stateAfter {replies : List Reply} (hreplies : ∀ reply ∈ replies, ¬reply.IsLast)
    (outcome : Except SyntaxError Token) :
    Fits (some (stateAfter outcome)) (replies ++ [.ofScan outcome]) := by
  cases outcome with
  | error error => exact ⟨.failed error, by simp [Reply.ofScan], trivial⟩
  | ok found =>
      by_cases heof : found.kind = .eof
      · rw [stateAfter, if_pos (by simpa [Token.isEof] using heof)]
        exact ⟨.token found, by simp [Reply.ofScan], heof⟩
      · rw [stateAfter, if_neg (by simpa [Token.isEof] using heof)]
        refine ⟨by simp, ?_⟩
        intro reply hreply
        rcases List.mem_append.mp hreply with hreply | hreply
        · exact hreplies reply hreply
        · rw [List.mem_singleton.mp hreply]
          exact heof

/-- What all scans find that a run makes. -/
theorem run_scans {cursor : Cursor} (hcursor : cursor = Cursor.behindScans source count) :
    (∀ index token, cursor.run.tokens[index]? = some token →
      endless source (count + index) = .ok token) ∧
    match cursor.run.error with
    | none => cursor.run.cursor = Cursor.behindScans source (count + cursor.run.tokens.length)
    | some error =>
        (∀ token ∈ cursor.run.tokens, token.kind ≠ .eof) ∧
        endless source (count + cursor.run.tokens.length) = .error (error.within source) ∧
        cursor.run.cursor =
          Cursor.behindScans source (count + cursor.run.tokens.length + 1) := by
  -- The cases are those of the run: an error, the end, and a token with a run behind it.
  induction cursor using Cursor.run.induct generalizing count with
  | case1 cursor error hscan =>
      subst hcursor
      rw [Cursor.run_of_error hscan]
      refine ⟨by simp, by simp, ?_, rfl⟩
      rw [endless, List.length_nil, Nat.add_zero, hscan]
      rfl
  | case2 cursor last hscan hkind =>
      subst hcursor
      rw [Cursor.run_of_eof hscan hkind]
      refine ⟨?_, rfl⟩
      intro index token htoken
      obtain ⟨rfl, rfl⟩ : index = 0 ∧ last = token := by
        cases index <;> simp_all
      rw [endless, Nat.add_zero, hscan]
      rfl
  | case3 cursor first hscan hkind _ ih =>
      have hnext : cursor.scan.2 = Cursor.behindScans source (count + 1) := by
        rw [hcursor]
        rfl
      obtain ⟨htokens, hend⟩ := ih hnext
      subst hcursor
      rw [Cursor.run_of_token hscan hkind]
      constructor
      · intro index token htoken
        cases index with
        | zero =>
            rw [List.getElem?_cons_zero, Option.some.injEq] at htoken
            rw [endless, Nat.add_zero, hscan, ← htoken]
            rfl
        | succ index =>
            rw [Nat.add_comm index, ← Nat.add_assoc]
            exact htokens index token (by simpa using htoken)
      · rw [List.length_cons, Nat.add_comm _ 1, ← Nat.add_assoc]
        split at hend
        · rename_i hnone
          simpa [hnone] using hend
        · rename_i error hsome
          simpa [hsome, hkind] using hend

/-- Tokens and the error behind them as replies. -/
def outputs (found : List Token × Option SyntaxError) : List Reply :=
  found.1.map .token ++ found.2.toList.map .failed

/-- What a run finds, with the lines of the source that its error refers to. -/
def found (source : String) (cursor : Cursor) : List Token × Option SyntaxError :=
  (cursor.run.tokens, cursor.run.error.map (·.within source))

/-- What an iterator in this state is still going to give, if it alone goes on. -/
def pending (source : String) (count : Nat) : Option Iterator → List Reply
  | some .fresh => outputs (found source (Cursor.behindScans source 0))
  | some .running => outputs (found source (Cursor.behindScans source count))
  | _ => []

/-- What a run from here on gives begins with the scan made here. -/
theorem outputs_behindScans (source : String) (count : Nat) :
    outputs (found source (Cursor.behindScans source count)) =
      .ofScan (endless source count) ::
        pending source (count + 1) (some (stateAfter (endless source count))) := by
  rw [endless, found]
  cases hscan : (Cursor.behindScans source count).scan.1 with
  | error error =>
      rw [Cursor.run_of_error hscan]
      rfl
  | ok token =>
      by_cases hkind : token.kind = .eof
      · have heof : token.isEof = true := by simpa [Token.isEof] using hkind
        rw [Cursor.run_of_eof hscan hkind]
        simp [outputs, Except.mapError, stateAfter, heof, Reply.ofScan, pending]
      · have heof : token.isEof = false := by simpa [Token.isEof] using hkind
        rw [Cursor.run_of_token hscan hkind]
        simp [outputs, found, Except.mapError, stateAfter, heof, Reply.ofScan, pending,
          Cursor.behindScans]

theorem size_scannedBy (reader : Reader) (iterator count : Nat) :
    (reader.scannedBy iterator count).iterators.size = reader.iterators.size :=
  Array.size_setIfInBounds

theorem getElem?_scannedBy_self (hthere : iterator < reader.iterators.size) (count : Nat) :
    (reader.scannedBy iterator count).iterators[iterator]? =
      some (stateAfter (endless reader.source count)) :=
  Array.getElem?_setIfInBounds_self_of_lt hthere

namespace Reflects

theorem ofSource (source : String) : Reflects source (Reader.ofSource source) [] 0 where
  session := .start
  source_eq := rfl
  cursor_eq := rfl
  size_eq := rfl
  fits iterator := by simp [Reader.ofSource, Fits, given]

/-- A request that moves no iterator and gives nothing to one. -/
theorem still (hreflects : Reflects source reader log count) {cursor : Cursor} {next : Nat}
    (hsession : Session source (log ++ [(request, reply)]) next)
    (hcursor : cursor = Cursor.behindScans source next) (hrequest : request ≠ .iterate)
    (hgiven : ∀ iterator, given iterator (log ++ [(request, reply)]) = given iterator log) :
    Reflects source { reader with cursor } (log ++ [(request, reply)]) next where
  session := hsession
  source_eq := hreflects.source_eq
  cursor_eq := hcursor
  size_eq := by
    rw [created_append, if_neg hrequest]
    exact hreflects.size_eq
  fits iterator := by
    rw [hgiven]
    exact hreflects.fits iterator

theorem scanned (hreflects : Reflects source reader log count) {next : Nat}
    (hthere : iterator < reader.iterators.size)
    (hgiven : ∀ reply ∈ given iterator log, ¬reply.IsLast)
    (hsession : Session source (log ++ [(.next iterator, .ofScan (endless source next))])
      (next + 1)) :
    Reflects source (reader.scannedBy iterator next)
      (log ++ [(.next iterator, .ofScan (endless source next))]) (next + 1) where
  session := hsession
  source_eq := hreflects.source_eq
  cursor_eq := by rw [← hreflects.source_eq]; rfl
  size_eq := by
    rw [created_append, if_neg (by simp), size_scannedBy]
    exact hreflects.size_eq
  fits other := by
    by_cases hother : other = iterator
    · subst hother
      rw [given_append_ofScan, getElem?_scannedBy_self hthere, hreflects.source_eq]
      exact fits_stateAfter hgiven _
    · rw [given_append_of_ne (by simpa using Ne.symm hother), scannedBy,
        Array.getElem?_setIfInBounds_ne (Ne.symm hother)]
      exact hreflects.fits other

theorem iterate (hreflects : Reflects source reader log count) :
    Reflects source reader.iterate (log ++ [(.iterate, .ready)]) count where
  session := hreflects.session.iterate
  source_eq := hreflects.source_eq
  cursor_eq := hreflects.cursor_eq
  size_eq := by
    rw [created_append, if_pos rfl, Reader.iterate, Array.size_push, hreflects.size_eq]
  fits iterator := by
    have hfits := hreflects.fits iterator
    rw [given_append_of_ne (by simp), Reader.iterate, Array.getElem?_push]
    split
    · rename_i hlast
      rw [hlast, Array.getElem?_size] at hfits
      exact hlast ▸ hfits
    · exact hfits

/-- An iterator that has not ended makes the next scan, and a fresh one the first. -/
theorem step (hreflects : Reflects source reader log count) {state : Iterator}
    (hiterator : reader.iterators[iterator]? = some state) (hstate : state ≠ .ended) :
    ∃ index, reader.reply (.next iterator) =
        (.ofScan (endless source index), reader.scannedBy iterator index) ∧
      Reflects source (reader.scannedBy iterator index)
        (log ++ [(.next iterator, .ofScan (endless source index))]) (index + 1) ∧
      pending source count (some state) = .ofScan (endless source index) ::
        pending source (index + 1) (some (stateAfter (endless source index))) := by
  obtain rfl := hreflects.source_eq
  have hthere : iterator < reader.iterators.size := (Array.getElem?_eq_some_iff.mp hiterator).1
  have hfits := hreflects.fits iterator
  rw [hiterator] at hfits
  cases state with
  | fresh =>
      have hgiven : given iterator log = [] := hfits
      have hsession := hreflects.session.first (hreflects.size_eq ▸ hthere) hgiven
      exact ⟨0, reply_next_fresh hiterator,
        hreflects.scanned hthere (by simp [hgiven]) hsession, outputs_behindScans _ 0⟩
  | running =>
      have hsession := hreflects.session.more hfits.1 hfits.2
      exact ⟨count, reply_next_running hiterator hreflects.cursor_eq,
        hreflects.scanned hthere hfits.2 hsession, outputs_behindScans _ count⟩
  | ended => exact absurd rfl hstate

theorem idle (hreflects : Reflects source reader log count)
    (hended : created log ≤ iterator ∨ ∃ reply ∈ given iterator log, reply.IsLast) :
    Reflects source reader (log ++ [(.next iterator, .stop)]) count :=
  hreflects.still (hreflects.session.stop hended) hreflects.cursor_eq (by simp) fun other =>
    given_append_stop other log _

theorem ended (hreflects : Reflects source reader log count)
    (hiterator : reader.iterators[iterator]? = some .ended) :
    Reflects source reader (log ++ [(.next iterator, .stop)]) count := by
  have hfits := hreflects.fits iterator
  rw [hiterator] at hfits
  exact hreflects.idle (.inr hfits)

theorem next (hreflects : Reflects source reader log count) (iterator : Nat) :
    ∃ next, Reflects source (reader.reply (.next iterator)).2
      (log ++ [(.next iterator, (reader.reply (.next iterator)).1)]) next := by
  cases hiterator : reader.iterators[iterator]? with
  | none =>
      rw [reply_next_none hiterator]
      refine ⟨count, hreflects.idle (.inl ?_)⟩
      rw [← hreflects.size_eq]
      exact Array.getElem?_eq_none_iff.mp hiterator
  | some state =>
      by_cases hstate : state = .ended
      · rw [hstate] at hiterator
        rw [reply_next_ended hiterator]
        exact ⟨count, hreflects.ended hiterator⟩
      · obtain ⟨index, hreply, hnext, _⟩ := hreflects.step hiterator hstate
        rw [hreply]
        exact ⟨index + 1, hnext⟩

theorem tokenize (hreflects : Reflects source reader log count) :
    ∃ next, Reflects source (reader.reply .tokenize).2
      (log ++ [(.tokenize, (reader.reply .tokenize).1)]) next := by
  obtain rfl := hreflects.source_eq
  have hstart : Cursor.ofSource reader.source = Cursor.behindScans reader.source 0 := rfl
  obtain ⟨hscans, hend⟩ := run_scans hstart
  simp only [Nat.zero_add] at hscans hend
  have hgiven : ∀ reply iterator,
      given iterator (log ++ [(.tokenize, reply)]) = given iterator log := fun reply iterator =>
    given_append_of_ne (by simp) reply
  rw [reply_tokenize]
  cases herror : (Cursor.ofSource reader.source).run.error with
  | none =>
      rw [herror] at hend
      obtain ⟨body, eof, htokens, heof, hbody⟩ := Cursor.run_eof herror
      rw [htokens] at hscans hend ⊢
      rw [List.length_append] at hend
      exact ⟨_, hreflects.still (hreflects.session.tokens hscans hbody heof) hend (by simp)
        (hgiven _)⟩
  | some error =>
      rw [herror] at hend
      obtain ⟨hbody, hfault, hcursor⟩ := hend
      exact ⟨_, hreflects.still (hreflects.session.failed hscans hbody hfault) hcursor (by simp)
        (hgiven _)⟩

theorem line (hreflects : Reflects source reader log count) (number : Int) :
    Reflects source (reader.reply (.line number)).2
      (log ++ [(.line number, (reader.reply (.line number)).1)]) count := by
  have hline : reader.line? number = lineAt? source number := by
    rw [line?, hreflects.source_eq]
  rw [Reader.reply, hline]
  exact hreflects.still (hreflects.session.line number) hreflects.cursor_eq (by simp)
    fun iterator => given_append_of_ne (by simp) _

/-- Whatever is asked for, the reader goes on to stand where the dialogue leads. -/
theorem replied (hreflects : Reflects source reader log count) (request : Request) :
    ∃ next, Reflects source (reader.reply request).2
      (log ++ [(request, (reader.reply request).1)]) next := by
  cases request with
  | iterate => exact ⟨count, hreflects.iterate⟩
  | next iterator => exact hreflects.next iterator
  | tokenize => exact hreflects.tokenize
  | line number => exact ⟨count, hreflects.line number⟩

theorem after (hreflects : Reflects source reader log count) (requests : List Request) :
    ∃ next, Reflects source (reader.after requests) (log ++ reader.dialogue requests) next := by
  induction requests generalizing reader log count with
  | nil =>
      refine ⟨count, ?_⟩
      rw [dialogue, List.zip_nil_left, List.append_nil]
      exact hreflects
  | cons request rest ih =>
      obtain ⟨next, hnext⟩ := hreflects.replied request
      obtain ⟨last, hlast⟩ := ih hnext
      rw [List.append_assoc] at hlast
      exact ⟨last, hlast⟩

end Reflects

theorem given_append (iterator : Nat) (log more : List (Request × Reply)) :
    given iterator (log ++ more) = given iterator log ++ given iterator more := by
  simp [given]

theorem after_append (reader : Reader) (before more : List Request) :
    reader.after (before ++ more) = (reader.after before).after more :=
  List.foldl_append

/-- An iterator that has given something last is at its end. -/
theorem Fits.eq_ended {state : Option Iterator} {replies : List Reply}
    (hfits : Fits state replies) (hlast : ∃ reply ∈ replies, reply.IsLast) :
    state = some .ended := by
  obtain ⟨last, hmem, hlast⟩ := hlast
  match state, hfits with
  | none, hnil | some .fresh, hnil =>
      rw [show replies = [] from hnil] at hmem
      cases hmem
  | some .running, hrunning => exact absurd hlast (hrunning.2 last hmem)
  | some .ended, _ => rfl

/-- An iterator that is there and has given nothing is fresh. -/
theorem Fits.eq_fresh {state : Iterator} (hfits : Fits (some state) []) : state = .fresh := by
  cases state with
  | fresh => rfl
  | running => exact absurd rfl hfits.1
  | ended =>
      obtain ⟨_, hmem, _⟩ := hfits
      cases hmem

/-- Behind the end or an error an iterator only says that it has stopped. -/
theorem reply_behind_last {before : List Request}
    (hlast : (((ofSource source).after before).reply (.next iterator)).1.IsLast)
    (between : List Request) :
    (((ofSource source).after (before ++ .next iterator :: between)).reply (.next iterator)).1 =
      .stop := by
  obtain ⟨_, hbefore⟩ := (Reflects.ofSource source).after before
  obtain ⟨_, hnext⟩ := hbefore.replied (.next iterator)
  obtain ⟨_, hbehind⟩ := hnext.after between
  have hgiven : ∃ reply ∈ given iterator
      (([] ++ (ofSource source).dialogue before ++ [(.next iterator,
        (((ofSource source).after before).reply (.next iterator)).1)]) ++
        (((ofSource source).after before).reply (.next iterator)).2.dialogue between),
      reply.IsLast := by
    refine ⟨_, ?_, hlast⟩
    rw [given_append, given_append]
    have hstop : (((ofSource source).after before).reply (.next iterator)).1 ≠ .stop := by
      intro hstop
      rw [hstop] at hlast
      exact hlast
    simp [given, hstop]
  have hended := (hbehind.fits iterator).eq_ended hgiven
  rw [after_append]
  change (((((ofSource source).after before).reply (.next iterator)).2.after between).reply
    (.next iterator)).1 = .stop
  rw [reply_next_ended hended]

/-- The request makes no scan, unless it is for a step of this iterator. -/
def Quiet (log : List (Request × Reply)) (iterator : Nat) : Request → Prop
  | .next other => other = iterator ∨ ∃ reply ∈ given other log, reply.IsLast
  | .tokenize => False
  | _ => True

theorem Quiet.append (hquiet : Quiet log iterator request) (more : List (Request × Reply)) :
    Quiet (log ++ more) iterator request := by
  cases request with
  | next other =>
      refine hquiet.imp_right ?_
      rintro ⟨reply, hreply, hlast⟩
      rw [given_append]
      exact ⟨reply, List.mem_append_left _ hreply, hlast⟩
  | tokenize => exact hquiet
  | iterate => trivial
  | line number => trivial

theorem dialogue_cons (reader : Reader) (request : Request) (rest : List Request) :
    reader.dialogue (request :: rest) =
      [(request, (reader.reply request).1)] ++ (reader.reply request).2.dialogue rest :=
  rfl

/-- A request for something else leaves an iterator with what it has yet to give. -/
theorem give_of_ne (hrequest : request ≠ .next iterator) (reply : Reply) (future : List Reply)
    (rest : List Request) :
    given iterator [(request, reply)] ++ future.take (rest.count (.next iterator)) =
      future.take ((request :: rest).count (.next iterator)) := by
  have hnone : given iterator [(request, reply)] = [] := by simp [given, hrequest]
  rw [hnone, List.nil_append, List.count_cons_of_ne hrequest]

/-- If an iterator alone makes scans, a request takes from what the iterator has yet to give, and
leaves the rest of it to the requests behind. -/
theorem Reflects.quiet_step (hreflects : Reflects source reader log count)
    (hthere : iterator < reader.iterators.size) (hquiet : Quiet log iterator request) :
    ∃ next, Reflects source (reader.reply request).2
        (log ++ [(request, (reader.reply request).1)]) next ∧
      iterator < (reader.reply request).2.iterators.size ∧ ∀ rest,
        given iterator [(request, (reader.reply request).1)] ++
            (pending source next (reader.reply request).2.iterators[iterator]?).take
              (rest.count (.next iterator)) =
          (pending source count reader.iterators[iterator]?).take
            ((request :: rest).count (.next iterator)) := by
  cases request with
  | tokenize => exact hquiet.elim
  | iterate =>
      have hsame : reader.iterate.iterators[iterator]? = reader.iterators[iterator]? := by
        rw [Reader.iterate, Array.getElem?_push, if_neg (Nat.ne_of_lt hthere)]
      have hstill : iterator < reader.iterate.iterators.size := by
        rw [Reader.iterate, Array.size_push]
        exact Nat.lt_succ_of_lt hthere
      refine ⟨count, hreflects.iterate, hstill, fun rest => ?_⟩
      rw [← hsame]
      exact give_of_ne (by simp) _ _ rest
  | line number =>
      exact ⟨count, hreflects.line number, hthere, give_of_ne (by simp) _ _⟩
  | next other =>
      by_cases hother : other = iterator
      · subst hother
        obtain ⟨state, hiterator⟩ : ∃ state, reader.iterators[other]? = some state :=
          ⟨_, Array.getElem?_eq_getElem hthere⟩
        by_cases hstate : state = .ended
        · rw [hstate] at hiterator
          rw [reply_next_ended hiterator]
          refine ⟨count, hreflects.ended hiterator, hthere, fun rest => ?_⟩
          simp [hiterator, pending, given]
        · obtain ⟨index, hreply, hnext, hpending⟩ := hreflects.step hiterator hstate
          rw [hreply]
          refine ⟨index + 1, hnext, by rwa [size_scannedBy], fun rest => ?_⟩
          rw [getElem?_scannedBy_self hthere, hreflects.source_eq, hiterator, hpending,
            List.count_cons_self, List.take_succ_cons]
          exact congrArg (· ++ _) (given_append_ofScan other [] _)
      · have hended := (hreflects.fits other).eq_ended (hquiet.resolve_left hother)
        rw [reply_next_ended hended]
        exact ⟨count, hreflects.ended hended, hthere, give_of_ne (by simpa using hother) _ _⟩

/-- An iterator that alone makes scans gives what a run finds, as far as it is asked. -/
theorem Reflects.given_dialogue (hreflects : Reflects source reader log count)
    (hthere : iterator < reader.iterators.size) {during : List Request}
    (hquiet : ∀ request ∈ during, Quiet log iterator request) :
    given iterator (reader.dialogue during) =
      (pending source count reader.iterators[iterator]?).take
        (during.count (.next iterator)) := by
  -- The induction is on what is still asked for: the reader and the log grow by one request.
  induction during generalizing reader log count with
  | nil => rfl
  | cons request rest ih =>
      obtain ⟨next, hnext, hstill, hgives⟩ :=
        hreflects.quiet_step hthere (hquiet request List.mem_cons_self)
      have hrest := ih hnext hstill fun other hother =>
        (hquiet other (List.mem_cons_of_mem request hother)).append _
      rw [dialogue_cons, given_append, hrest, hgives]

theorem standsIn_behindScans (source : String) (count : Nat) :
    (Cursor.behindScans source count).StandsIn source := by
  induction count with
  | zero => exact Cursor.standsIn_ofSource source
  | succ count ih => exact ih.scan

/-- Behind every request the cursor stands where some number of scans leads. -/
theorem Reflects.location_of_mem (hreflects : Reflects source reader log count)
    {requests : List Request} {entry : Reply × Location}
    (hentry : entry ∈ reader.replies requests) :
    ∃ next, entry.2 = (Cursor.behindScans source next).location := by
  induction requests generalizing reader log count with
  | nil => cases hentry
  | cons request rest ih =>
      obtain ⟨next, hnext⟩ := hreflects.replied request
      rcases List.mem_cons.mp hentry with rfl | hentry
      · exact ⟨next, congrArg Cursor.location hnext.cursor_eq⟩
      · exact ih hnext hentry

/-- The iterators of a reader share one cursor.  Every dialogue with it is one with the endless
scan of its source.  The location behind every request is that of the text in front of the cursor.
An iterator gives nothing behind the end or an error, and one that makes all scans from its first
on gives the tokens of the source and the error behind them, whatever was asked for before; so
does a reading of all tokens. -/
theorem shares_one_cursor (source : String) :
    (∀ requests, ∃ count, Session source ((ofSource source).dialogue requests) count ∧
      ((ofSource source).after requests).cursor = Cursor.behindScans source count) ∧
    (∀ requests, ∀ entry ∈ (ofSource source).replies requests,
      entry.2.offset ≤ source.toList.length ∧
      entry.2.line = 1 + (source.toList.take entry.2.offset).count '\n' ∧
      entry.2.column = 1 + ((source.toList.take entry.2.offset).reverse.takeWhile
        fun c => decide (c ≠ '\n')).length) ∧
    (∀ before iterator between,
      (((ofSource source).after before).reply (.next iterator)).1.IsLast →
      (((ofSource source).after (before ++ .next iterator :: between)).reply
        (.next iterator)).1 = .stop) ∧
    (∀ before iterator during, iterator < created ((ofSource source).dialogue before) →
      given iterator ((ofSource source).dialogue before) = [] →
      (∀ request ∈ during, Quiet ((ofSource source).dialogue before) iterator request) →
      given iterator (((ofSource source).after before).dialogue during) =
        (outputs (scanTokens source)).take (during.count (.next iterator))) ∧
    ∀ before, (((ofSource source).after before).reply .tokenize).1 =
      match Reckon.tokenize source with
      | .ok tokens => .tokens tokens
      | .error error => .failed error := by
  refine ⟨?_, ?_, ?_, ?_, ?_⟩
  · intro requests
    obtain ⟨count, hafter⟩ := (Reflects.ofSource source).after requests
    exact ⟨count, hafter.session, hafter.cursor_eq⟩
  · intro requests entry hentry
    obtain ⟨count, hlocation⟩ := (Reflects.ofSource source).location_of_mem hentry
    obtain ⟨hoffset, _, hline, hcolumn⟩ := (standsIn_behindScans source count).location_eq
    rw [hlocation]
    exact ⟨hoffset, hline, hcolumn⟩
  · intro before iterator between hlast
    exact reply_behind_last hlast between
  · intro before iterator during hthere hgiven hquiet
    obtain ⟨count, hbefore⟩ := (Reflects.ofSource source).after before
    rw [List.nil_append] at hbefore
    rw [← hbefore.size_eq] at hthere
    obtain ⟨state, hiterator⟩ : ∃ state, ((ofSource source).after before).iterators[iterator]? =
        some state := ⟨_, Array.getElem?_eq_getElem hthere⟩
    have hfits := hbefore.fits iterator
    rw [hgiven, hiterator] at hfits
    rw [hbefore.given_dialogue hthere hquiet, hiterator, hfits.eq_fresh]
    rfl
  · intro before
    obtain ⟨count, hbefore⟩ := (Reflects.ofSource source).after before
    rw [reply_tokenize, hbefore.source_eq, Reckon.tokenize, scanTokens]
    cases (Cursor.ofSource source).run.error <;> rfl

end Reader

end Reckon
