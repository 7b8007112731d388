import Reckon.Proofs.Yaml.Scalar
import Reckon.Yaml.Document

/-
Trees in written form.  Every tree has a text in which its collections stand in brackets and its
quoted scalars in double quotes, and the reader gives the tree back.
-/

namespace Reckon

namespace Datum

/-- A new key is put behind the others. -/
theorem putEntry_of_new {key : Datum} {entries : List (Datum × Datum)}
    (hkey : ∀ entry ∈ entries, entry.1.sameKey key = false) (value : Datum) :
    putEntry key value entries = entries ++ [(key, value)] := by
  induction entries with
  | nil => rfl
  | cons entry rest ih =>
      have hfirst := hkey entry List.mem_cons_self
      have hrest := ih fun other hother => hkey other (List.mem_cons_of_mem entry hother)
      rw [putEntry, hfirst, if_neg Bool.false_ne_true, hrest]
      rfl

/-- Entries under different texts are kept as they are. -/
theorem ofEntries_of_nodup (entries : List (String × Datum))
    (hnames : (entries.map Prod.fst).Nodup) :
    ofEntries (entries.map fun entry => (text entry.1, entry.2)) =
      .map (entries.map fun entry => (text entry.1, entry.2)) := by
  induction entries using List.reverseRecOn with
  | nil => rfl
  | append_singleton front entry ih =>
      rw [List.map_append, List.nodup_append] at hnames
      obtain ⟨hfront, -, hapart⟩ := hnames
      have hnew : ∀ other ∈ front.map fun entry => (text entry.1, entry.2),
          other.1.sameKey (text entry.1) = false := by
        intro other hother
        obtain ⟨earlier, hearlier, rfl⟩ := List.mem_map.mp hother
        rw [sameKey_text, beq_eq_false_iff_ne]
        exact hapart _ (List.mem_map_of_mem hearlier) _ (by simp)
      have hbefore := ih hfront
      rw [ofEntries, map.injEq] at hbefore ⊢
      rw [List.map_append, List.foldl_append, hbefore]
      exact putEntry_of_new hnew entry.2

end Datum

namespace Yaml

variable {bracketed : Bool} {indent : Nat} {text rest after : List Char} {c : Char}

mutual

/-- A tree in brackets and double quotes.  Each item ends with a comma, and each key stands behind
a question mark, so that it may be of any length. -/
def Tree.written : Tree → List Char
  | .plain text => text
  | .quoted text => '"' :: text.flatMap writtenChar ++ ['"']
  | .list items => '[' :: writtenItems items
  | .map entries => '\x7b' :: writtenEntries entries

def writtenItems : List Tree → List Char
  | [] => [']']
  | item :: rest => item.written ++ ',' :: writtenItems rest

def writtenEntries : List (Tree × Tree) → List Char
  | [] => ['\x7d']
  | (key, value) :: rest =>
      '?' :: ' ' :: key.written ++ ':' :: ' ' :: value.written ++ ',' :: writtenEntries rest

end

/-- The plain scalars of the tree can be written as they stand. -/
inductive Tree.Writable : Tree → Prop
  | plain {text : List Char} (hword : isWord text = true) : Writable (.plain text)
  | quoted (text : List Char) : Writable (.quoted text)
  | list {items : List Tree} (hitems : ∀ item ∈ items, Writable item) : Writable (.list items)
  | map {entries : List (Tree × Tree)} (hkeys : ∀ entry ∈ entries, Writable entry.1)
      (hvalues : ∀ entry ∈ entries, Writable entry.2) : Writable (.map entries)

/-! ### Scalars at a cursor -/

variable {location : Location}

theorem scalar?_plain (hword : isWord text = true) (hafter : Stops bracketed indent after)
    (location : Location) : scalar? bracketed indent ⟨text ++ after, location⟩ =
      some (.plain text, ⟨after, location.after text⟩) := by
  have hbegins := beginsPlain_append hword bracketed after
  have hmarker : atMarker ⟨text ++ after, location⟩ = false := by
    rw [atMarker, isMarker_append hword after, Bool.and_false]
  have hleave := Cursor.leave_append text after location
  obtain ⟨c, rest, rfl, -, hall, -⟩ := exists_cons_of_isWord hword
  have hplain := plain_append hall hafter
  have hquotes : ¬(c = '\'' ∨ c = '"') := by
    rintro (rfl | rfl) <;> simp [beginsPlain, atGap] at hbegins
  rw [List.cons_append] at hbegins hmarker hleave hplain ⊢
  simp [scalar?, hquotes, hbegins, hmarker, hplain, hleave]

theorem scalar?_quoted (bracketed : Bool) (indent : Nat) (text after : List Char)
    (location : Location) :
    scalar? bracketed indent ⟨(Tree.quoted text).written ++ after, location⟩ =
      some (.quoted text, ⟨after, location.after (Tree.quoted text).written⟩) := by
  have hleave := Cursor.leave_append (Tree.quoted text).written after location
  have hwritten : (Tree.quoted text).written ++ after =
      '"' :: (text.flatMap writtenChar ++ '"' :: after) := by
    simp [Tree.written]
  have hread : quotedScalar? ('"' :: (text.flatMap writtenChar ++ '"' :: after)) =
      some (text, after) := doubleRest_written List.not_mem_nil
  rw [hwritten] at hleave ⊢
  simp [scalar?, hread, hleave]

/-! ### What is skipped -/

/-- The text begins with something that is neither blank nor a comment. -/
def BeginsSolid (text : List Char) : Prop :=
  ∃ c rest, text = c :: rest ∧ c ≠ ' ' ∧ c ≠ '\n' ∧ c ≠ '#'

theorem BeginsSolid.append (htext : BeginsSolid text) (after : List Char) :
    BeginsSolid (text ++ after) := by
  obtain ⟨c, rest, rfl, hc⟩ := htext
  exact ⟨c, rest ++ after, rfl, hc⟩

theorem beginsSolid_comma (rest : List Char) : BeginsSolid (',' :: rest) :=
  ⟨',', rest, rfl, by decide⟩

theorem beginsSolid_colon (rest : List Char) : BeginsSolid (':' :: rest) :=
  ⟨':', rest, rfl, by decide⟩

/-- Spaces and line ends are skipped up to what is solid. -/
theorem skip_append {gap : List Char} (hgap : ∀ c ∈ gap, c = ' ' ∨ c = '\n')
    (htext : BeginsSolid text) (location : Location) :
    skip ⟨gap ++ text, location⟩ = ⟨text, location.after gap⟩ := by
  have hskip : skipText false (gap ++ text) = text := by
    induction gap with
    | nil =>
        obtain ⟨c, rest, rfl, hspace, hbreak, hcomment⟩ := htext
        simp [skipText, hspace, hbreak, hcomment]
    | cons c gap ih =>
        have hrest := ih fun other hother => hgap other (List.mem_cons_of_mem c hother)
        rcases hgap c List.mem_cons_self with rfl | rfl <;> simpa [skipText] using hrest
  rw [skip, hskip, Cursor.leave_append]

theorem skip_solid (htext : BeginsSolid text) (location : Location) :
    skip ⟨text, location⟩ = ⟨text, location⟩ :=
  skip_append (fun _ hc => absurd hc List.not_mem_nil) htext location

theorem skip_space (htext : BeginsSolid text) (location : Location) :
    skip ⟨' ' :: text, location⟩ = ⟨text, location.next ' '⟩ :=
  skip_append (fun _ hc => .inl (List.mem_singleton.mp hc)) htext location

theorem skip_nil (location : Location) : skip ⟨[], location⟩ = ⟨[], location⟩ := rfl

theorem step_cons (c : Char) (rest : List Char) (location : Location) :
    step ⟨c :: rest, location⟩ = ⟨rest, location.next c⟩ := rfl

/-! ### Trees at a cursor -/

/-- What a tree in written form may begin with: no space, no mark, and nothing that ends an
entry. -/
def opens (c : Char) : Bool := !atGap [c] && c ∉ ['#', ':', '?', ',', ']', '\x7d']

theorem exists_written_cons {tree : Tree} (htree : tree.Writable) :
    ∃ c rest, tree.written = c :: rest ∧ opens c = true := by
  cases htree with
  | plain hword =>
      obtain ⟨c, rest, rfl, -, hall, -⟩ := exists_cons_of_isWord hword
      have hc := hall c List.mem_cons_self
      obtain ⟨-, hcolon, hquestion, hhash, hbracket⟩ := isPlainChar_ne hc
      have hgap : atGap [c] = false := atGap_of_isPlainChar hc
      simp only [isBracket, List.mem_cons, decide_eq_false_iff_not, not_or] at hbracket
      exact ⟨c, rest, rfl, by simp [opens, hgap, hcolon, hquestion, hhash, hbracket]⟩
  | quoted text => exact ⟨'"', _, rfl, by decide⟩
  | list hitems => exact ⟨'[', _, rfl, by decide⟩
  | map hkeys hvalues => exact ⟨'\x7b', _, rfl, by decide⟩

theorem opens_ne (hc : opens c = true) : (c ≠ ' ' ∧ c ≠ '\n' ∧ c ≠ '#') ∧ c ≠ ':' ∧ c ≠ '?' ∧
    c ≠ ',' ∧ c ≠ ']' ∧ c ≠ '\x7d' := by
  simp only [opens, atGap, Bool.and_eq_true, Bool.not_eq_true', Bool.or_eq_false_iff,
    beq_eq_false_iff_ne, List.mem_cons, decide_eq_true_eq, not_or] at hc
  tauto

theorem beginsSolid_written {tree : Tree} (htree : tree.Writable) : BeginsSolid tree.written := by
  obtain ⟨c, rest, hwritten, hc⟩ := exists_written_cons htree
  exact ⟨c, rest, hwritten, (opens_ne hc).1⟩

/-- Nothing that a tree begins with ends an entry. -/
theorem endsEntry_written {tree : Tree} (htree : tree.Writable) (after : List Char)
    (location : Location) : endsEntry ⟨tree.written ++ after, location⟩ = false := by
  obtain ⟨c, rest, hwritten, hc⟩ := exists_written_cons htree
  obtain ⟨-, hcolon, -, hcomma, hlist, hmap⟩ := opens_ne hc
  simp [endsEntry, hwritten, hcolon, hcomma, hlist, hmap]

/-- Wherever a tree is written it is read back, if there is fuel for two steps a character. -/
def ReadsBack (tree : Tree) : Prop :=
  ∀ fuel bracketed indent after location, 2 * tree.written.length ≤ fuel →
    Stops bracketed indent after →
      content? fuel bracketed indent ⟨tree.written ++ after, location⟩ =
        some (tree, ⟨after, location.after tree.written⟩)

/-- The text of an entry in brackets, in front of a comma. -/
structure IsEntry (text : List Char) (entry : FlowEntry) : Prop where
  opening : ∃ c rest, text = c :: rest ∧ (c ≠ ' ' ∧ c ≠ '\n' ∧ c ≠ '#') ∧ c ≠ ']' ∧ c ≠ '\x7d'
  read : ∀ fuel after location, 2 * text.length < fuel →
    entry? fuel ⟨text ++ ',' :: after, location⟩ =
      some (entry, ⟨',' :: after, location.after text⟩)

theorem isEntry_item {tree : Tree} (htree : tree.Writable) (hreads : ReadsBack tree) :
    IsEntry tree.written (tree, none) := by
  obtain ⟨c, rest, hwritten, hc⟩ := exists_written_cons htree
  obtain ⟨hsolid, -, hquestion, -, hclosing⟩ := opens_ne hc
  refine ⟨⟨c, rest, hwritten, hsolid, hclosing⟩, ?_⟩
  intro fuel after location hfuel
  obtain ⟨fuel, rfl⟩ := Nat.exists_eq_succ_of_ne_zero (Nat.ne_zero_of_lt hfuel)
  have hcontent := hreads fuel true 0 (',' :: after) location (by omega) (stops_comma 0 after)
  have hskip := skip_solid (beginsSolid_comma after) (location.after tree.written)
  have hmarked : ¬tree.written.head?.getD ',' = '?' := by
    rw [hwritten]
    exact hquestion
  simp [ entry?, hmarked, hcontent, hskip]

/-- A value is read behind its colon. -/
theorem value?_written {tree : Tree} (htree : tree.Writable) (hreads : ReadsBack tree)
    {fuel : Nat} (hfuel : 2 * tree.written.length < fuel) (after : List Char)
    (location : Location) :
    value? fuel ⟨':' :: ' ' :: (tree.written ++ ',' :: after), location⟩ =
      some (tree, ⟨',' :: after, location.after (':' :: ' ' :: tree.written)⟩) := by
  obtain ⟨fuel, rfl⟩ := Nat.exists_eq_succ_of_ne_zero (Nat.ne_zero_of_lt hfuel)
  have hskip := skip_space ((beginsSolid_written htree).append (',' :: after)) (location.next ':')
  have hends := endsEntry_written htree (',' :: after) ((location.next ':').next ' ')
  have hcontent := hreads fuel true 0 (',' :: after) ((location.next ':').next ' ') (by omega)
    (stops_comma 0 after)
  simp [value?, step_cons, hskip, hends, hcontent]

theorem isEntry_pair {key value : Tree} (hkey : key.Writable) (hvalue : value.Writable)
    (hreadsKey : ReadsBack key) (hreadsValue : ReadsBack value) :
    IsEntry ('?' :: ' ' :: key.written ++ ':' :: ' ' :: value.written) (key, some value) := by
  refine ⟨⟨'?', _, rfl, by decide⟩, ?_⟩
  intro fuel after location hfuel
  simp only [List.length_append, List.length_cons] at hfuel
  obtain ⟨fuel, rfl⟩ := Nat.exists_eq_succ_of_ne_zero (Nat.ne_zero_of_lt hfuel)
  have hskip := skip_space
    ((beginsSolid_written hkey).append (':' :: ' ' :: (value.written ++ ',' :: after)))
    (location.next '?')
  have hends := endsEntry_written hkey (':' :: ' ' :: (value.written ++ ',' :: after))
    ((location.next '?').next ' ')
  have hcontent := hreadsKey fuel true 0 (':' :: ' ' :: (value.written ++ ',' :: after))
    ((location.next '?').next ' ') (by omega) (stops_colon true 0 rfl)
  have hcolon := skip_solid (beginsSolid_colon (' ' :: (value.written ++ ',' :: after)))
    (((location.next '?').next ' ').after key.written)
  have hrest := value?_written hvalue hreadsValue
    (show 2 * value.written.length < fuel by omega) after
    (((location.next '?').next ' ').after key.written)
  simp [ entry?, step_cons, hskip, hends, hcontent, hcolon, hrest]

/-- Entries, each with its comma, and the bracket behind them. -/
def joined (closing : Char) : List (List Char × FlowEntry) → List Char
  | [] => [closing]
  | (text, _) :: rest => text ++ ',' :: joined closing rest

theorem beginsSolid_joined {closing : Char} (hclosing : closing = ']' ∨ closing = '\x7d')
    {pieces : List (List Char × FlowEntry)}
    (hpieces : ∀ piece ∈ pieces, IsEntry piece.1 piece.2) :
    BeginsSolid (joined closing pieces) := by
  cases pieces with
  | nil => exact ⟨closing, [], rfl, by rcases hclosing with rfl | rfl <;> decide⟩
  | cons piece pieces =>
      obtain ⟨c, rest, htext, hsolid, -⟩ := (hpieces piece List.mem_cons_self).opening
      exact ⟨c, rest ++ ',' :: joined closing pieces, by rw [joined, htext, List.cons_append],
        hsolid⟩

/-- Entries are read up to their bracket. -/
theorem entries?_joined {closing : Char} (hclosing : closing = ']' ∨ closing = '\x7d')
    {pieces : List (List Char × FlowEntry)} (hpieces : ∀ piece ∈ pieces, IsEntry piece.1 piece.2)
    {fuel : Nat} (hfuel : 2 * (joined closing pieces).length ≤ fuel) (after : List Char)
    (location : Location) :
    entries? fuel closing ⟨joined closing pieces ++ after, location⟩ =
      some (pieces.map Prod.snd, ⟨after, location.after (joined closing pieces)⟩) := by
  induction pieces generalizing fuel location with
  | nil =>
      obtain ⟨fuel, rfl⟩ : ∃ left, fuel = left + 1 := ⟨fuel - 1, by simp [joined] at hfuel; omega⟩
      simp [entries?, joined, step_cons]
  | cons piece pieces ih =>
      obtain ⟨text, entry⟩ := piece
      have hentry : IsEntry text entry := hpieces _ List.mem_cons_self
      have hothers : ∀ other ∈ pieces, IsEntry other.1 other.2 :=
        fun other hother => hpieces other (List.mem_cons_of_mem _ hother)
      obtain ⟨c, rest, htext, -, hlist, hmap⟩ := hentry.opening
      have hlength : 0 < text.length := by simp [htext]
      simp only [joined, List.length_append, List.length_cons] at hfuel
      obtain ⟨fuel, rfl⟩ : ∃ left, fuel = left + 1 := ⟨fuel - 1, by omega⟩
      have hopen : ¬text.head?.getD ',' = closing := by
        rw [htext]
        rcases hclosing with rfl | rfl
        · exact hlist
        · exact hmap
      have hread := hentry.read fuel (joined closing pieces ++ after) location (by omega)
      have hcomma := skip_solid (beginsSolid_comma (joined closing pieces ++ after))
        (location.after text)
      have hnext := skip_solid ((beginsSolid_joined hclosing hothers).append after)
        ((location.after text).next ',')
      have hmore := ih hothers (show 2 * (joined closing pieces).length ≤ fuel by omega)
        ((location.after text).next ',')
      simp [entries?, joined, hopen, hread, hcomma, step_cons, hnext, hmore]

/-- The text of an item of a list, and what is read of it. -/
def itemPiece (item : Tree) : List Char × FlowEntry := (item.written, (item, none))

/-- The text of a key with its value, and what is read of them. -/
def pairPiece (entry : Tree × Tree) : List Char × FlowEntry :=
  ('?' :: ' ' :: entry.1.written ++ ':' :: ' ' :: entry.2.written, (entry.1, some entry.2))

theorem joined_items (items : List Tree) :
    joined ']' (items.map itemPiece) = writtenItems items := by
  induction items with
  | nil => rfl
  | cons item rest ih => rw [List.map_cons, itemPiece, joined, ih, writtenItems]

theorem joined_entries (entries : List (Tree × Tree)) :
    joined '\x7d' (entries.map pairPiece) = writtenEntries entries := by
  induction entries with
  | nil => rfl
  | cons entry rest ih =>
      obtain ⟨key, value⟩ := entry
      rw [List.map_cons, pairPiece, joined, ih, writtenEntries, List.append_assoc]

theorem content?_scalar {fuel : Nat} (hc : c ≠ '[' ∧ c ≠ '\x7b') :
    content? (fuel + 1) bracketed indent ⟨c :: rest, location⟩ =
      scalar? bracketed indent ⟨c :: rest, location⟩ := by
  rw [content?.eq_def]
  simp only
  split
  · rename_i hlist
    exact absurd (List.cons.inj hlist).1 hc.1
  · rename_i hmap
    exact absurd (List.cons.inj hmap).1 hc.2
  · rfl

/-- The entries of a collection are read behind its opening bracket. -/
theorem entries?_opened {closing : Char} (hclosing : closing = ']' ∨ closing = '\x7d')
    {pieces : List (List Char × FlowEntry)} (hpieces : ∀ piece ∈ pieces, IsEntry piece.1 piece.2)
    {fuel : Nat} (hfuel : 2 * (joined closing pieces).length ≤ fuel) (after : List Char)
    (location : Location) :
    entries? fuel closing (skip ⟨joined closing pieces ++ after, location⟩) =
      some (pieces.map Prod.snd, ⟨after, location.after (joined closing pieces)⟩) := by
  rw [skip_solid ((beginsSolid_joined hclosing hpieces).append after)]
  exact entries?_joined hclosing hpieces hfuel after location

/-- A tree is read back. -/
theorem readsBack {tree : Tree} (htree : tree.Writable) : ReadsBack tree := by
  induction htree with
  | @plain text hword =>
      intro fuel bracketed indent after location hfuel hafter
      have hscalar := scalar?_plain hword hafter location
      obtain ⟨c, rest, rfl, hbegins, -⟩ := exists_cons_of_isWord hword
      have hc : c ≠ '[' ∧ c ≠ '\x7b' := by
        constructor <;> rintro rfl <;> simp [beginsPlain, isBracket] at hbegins
      rw [Tree.written, List.length_cons] at hfuel
      obtain ⟨fuel, rfl⟩ : ∃ left, fuel = left + 1 := ⟨fuel - 1, by omega⟩
      exact (content?_scalar hc).trans hscalar
  | quoted text =>
      intro fuel bracketed indent after location hfuel hafter
      have hscalar := scalar?_quoted bracketed indent text after location
      rw [Tree.written, List.cons_append, List.length_cons] at hfuel
      obtain ⟨fuel, rfl⟩ : ∃ left, fuel = left + 1 := ⟨fuel - 1, by omega⟩
      exact (content?_scalar (by decide)).trans hscalar
  | @list items hitems ih =>
      intro fuel bracketed indent after location hfuel hafter
      rw [Tree.written, ← joined_items] at hfuel ⊢
      rw [List.length_cons] at hfuel
      obtain ⟨fuel, rfl⟩ : ∃ left, fuel = left + 1 := ⟨fuel - 1, by omega⟩
      have hpieces : ∀ piece ∈ items.map itemPiece, IsEntry piece.1 piece.2 := by
        intro piece hpiece
        obtain ⟨item, hitem, rfl⟩ := List.mem_map.mp hpiece
        exact isEntry_item (hitems item hitem) (ih item hitem)
      have hentries := entries?_opened (.inl rfl) hpieces
        (show 2 * (joined ']' (items.map itemPiece)).length ≤ fuel by omega) after
        (location.next '[')
      have hitems : ((items.map itemPiece).map Prod.snd).map FlowEntry.item = items := by
        rw [List.map_map, List.map_map]
        exact List.map_id items
      simp only [content?, List.cons_append, step_cons, hentries, Option.bind_eq_bind,
        Option.bind_some, Option.pure_def, hitems, Location.after_cons]
  | @map entries hkeys hvalues ihKeys ihValues =>
      intro fuel bracketed indent after location hfuel hafter
      rw [Tree.written, ← joined_entries] at hfuel ⊢
      rw [List.length_cons] at hfuel
      obtain ⟨fuel, rfl⟩ : ∃ left, fuel = left + 1 := ⟨fuel - 1, by omega⟩
      have hpieces : ∀ piece ∈ entries.map pairPiece, IsEntry piece.1 piece.2 := by
        intro piece hpiece
        obtain ⟨entry, hentry, rfl⟩ := List.mem_map.mp hpiece
        exact isEntry_pair (hkeys entry hentry) (hvalues entry hentry) (ihKeys entry hentry)
          (ihValues entry hentry)
      have hentries := entries?_opened (.inr rfl) hpieces
        (show 2 * (joined '\x7d' (entries.map pairPiece)).length ≤ fuel by omega) after
        (location.next '\x7b')
      have hpairs : ((entries.map pairPiece).map Prod.snd).map FlowEntry.pair = entries := by
        rw [List.map_map, List.map_map]
        exact List.map_id entries
      simp only [content?, List.cons_append, step_cons, hentries, Option.bind_eq_bind,
        Option.bind_some, Option.pure_def, hpairs, Location.after_cons]

/-! ### Documents -/

/-- Markers do not look like trees. -/
theorem isMarker_written {tree : Tree} (htree : tree.Writable) (after : List Char) :
    isMarker (tree.written ++ after) = false := by
  cases htree with
  | plain hword => exact isMarker_append hword after
  | quoted text => exact isMarker_eq_false fun rest => ⟨nofun, nofun⟩
  | list hitems => exact isMarker_eq_false fun rest => ⟨nofun, nofun⟩
  | map hkeys hvalues => exact isMarker_eq_false fun rest => ⟨nofun, nofun⟩

/-- A dash in front of a tree is no mark of an item. -/
theorem atItem_written {tree : Tree} (htree : tree.Writable) (after : List Char)
    (location : Location) : atItem ⟨tree.written ++ after, location⟩ = false := by
  rw [atItem]
  cases htree with
  | plain hword =>
      have hbegins := beginsPlain_append hword true after
      rw [Tree.written]
      split
      · rename_i rest hdash
        rw [show _ ++ after = '-' :: rest from hdash] at hbegins
        have hgap : atGap rest = false := by simpa [beginsPlain] using hbegins
        rw [hgap, Bool.false_and]
      · rfl
  | quoted text => rfl
  | list hitems => rfl
  | map hkeys hvalues => rfl

theorem atEnd_written {tree : Tree} (htree : tree.Writable) (after : List Char)
    (location : Location) : atEnd ⟨tree.written ++ after, location⟩ = false := by
  obtain ⟨c, rest, hwritten, -⟩ := exists_written_cons htree
  rw [atEnd, atMarker, isMarker_written htree, Bool.and_false, Bool.or_false, hwritten]
  rfl

theorem atMark_written {mark : Char} {tree : Tree} (htree : tree.Writable)
    (hmark : mark = '?' ∨ mark = ':') (after : List Char) (location : Location) :
    atMark mark ⟨tree.written ++ after, location⟩ = false := by
  obtain ⟨c, rest, hwritten, hc⟩ := exists_written_cons htree
  obtain ⟨-, hcolon, hquestion, -⟩ := opens_ne hc
  rcases hmark with rfl | rfl <;> simp [atMark, hwritten, hcolon, hquestion]

/-- A tree by itself is a document. -/
theorem tree?_written {tree : Tree} (htree : tree.Writable) : tree? tree.written = some tree := by
  have hskip := skip_solid (beginsSolid_written htree) Location.origin
  have hmarker : atMarker ⟨tree.written, Location.origin⟩ = false := by
    have hnone := isMarker_written htree []
    rw [List.append_nil] at hnone
    rw [atMarker, hnone, Bool.and_false]
  have hnode : node? (8 * tree.written.length + 8) ⟨0, true, false⟩
      ⟨tree.written, Location.origin⟩ = some (tree, ⟨[], Location.origin.after tree.written⟩) := by
    have hcontent := readsBack htree (8 * tree.written.length + 7) false 0 [] Location.origin
      (by omega) (stops_nil false 0)
    have hend := atEnd_written htree [] Location.origin
    have hitem := atItem_written htree [] Location.origin
    have hmark := atMark_written htree (.inl rfl) [] Location.origin
    have hcolumn : Location.origin.column = 1 := rfl
    rw [List.append_nil] at hcontent hend hitem hmark
    have hcolon : atMark ':' ⟨[], Location.origin.after tree.written⟩ = false := rfl
    simp [node?, hskip, hend, hcolumn, hitem, hmark, hcontent, skip_nil, hcolon]
  simp [tree?, hskip, hmarker, hnode, skipEnds, skip_nil]

theorem mem_writtenItems {items : List Tree} (hc : c ∈ writtenItems items) :
    c = ']' ∨ c = ',' ∨ ∃ item ∈ items, c ∈ item.written := by
  induction items with
  | nil => exact .inl (List.mem_singleton.mp hc)
  | cons item rest ih =>
      rw [writtenItems, List.mem_append, List.mem_cons] at hc
      rcases hc with hitem | rfl | hrest
      · exact .inr (.inr ⟨item, List.mem_cons_self, hitem⟩)
      · exact .inr (.inl rfl)
      · refine (ih hrest).imp_right (Or.imp_right ?_)
        rintro ⟨other, hother, hmem⟩
        exact ⟨other, List.mem_cons_of_mem item hother, hmem⟩

theorem mem_writtenEntries {entries : List (Tree × Tree)} (hc : c ∈ writtenEntries entries) :
    c ∈ ['?', ' ', ':', ',', '\x7d'] ∨
      ∃ entry ∈ entries, c ∈ entry.1.written ∨ c ∈ entry.2.written := by
  induction entries with
  | nil =>
      rw [writtenEntries, List.mem_singleton] at hc
      exact .inl (by simp [hc])
  | cons entry rest ih =>
      have hhead : c ∈ ['?', ' ', ':', ','] ∨ (c ∈ entry.1.written ∨ c ∈ entry.2.written) ∨
          c ∈ writtenEntries rest := by
        simp only [writtenEntries, List.cons_append, List.mem_append, List.mem_cons] at hc
        simp only [List.mem_cons, List.not_mem_nil, or_false]
        tauto
      rcases hhead with hsign | hentry | hrest
      · exact .inl (List.mem_append_left ['\x7d'] hsign)
      · exact .inr ⟨entry, List.mem_cons_self, hentry⟩
      · refine (ih hrest).imp_right ?_
        rintro ⟨other, hother, hmem⟩
        exact ⟨other, List.mem_cons_of_mem entry hother, hmem⟩

/-- Written forms are made of printable characters of ASCII. -/
theorem isPrintableAscii_written {tree : Tree} (htree : tree.Writable) (hc : c ∈ tree.written) :
    isPrintableAscii c = true := by
  induction htree with
  | plain hword =>
      obtain ⟨_, _, _, _, hall, _⟩ := exists_cons_of_isWord hword
      have hplain := hall c hc
      simp only [isPlainChar, Bool.and_eq_true] at hplain
      exact hplain.1.1.1.1.1
  | quoted text =>
      simp only [Tree.written, List.mem_cons, List.mem_append, List.mem_flatMap,
        List.not_mem_nil, or_false] at hc
      rcases hc with (rfl | ⟨other, -, hother⟩) | rfl
      · decide
      · exact isPrintableAscii_writtenChar hother
      · decide
  | list hitems ih =>
      rcases List.mem_cons.mp hc with rfl | hc
      · decide
      · rcases mem_writtenItems hc with rfl | rfl | ⟨item, hitem, hmem⟩
        · decide
        · decide
        · exact ih item hitem hmem
  | map hkeys hvalues ihKeys ihValues =>
      rcases List.mem_cons.mp hc with rfl | hc
      · decide
      · rcases mem_writtenEntries hc with hsign | ⟨entry, hentry, hkey | hvalue⟩
        · fin_cases hsign <;> decide
        · exact ihKeys entry hentry hkey
        · exact ihValues entry hentry hvalue

theorem isPrintableAscii_bounds (hc : isPrintableAscii c = true) :
    32 ≤ c.toNat ∧ c.toNat ≤ 126 := by
  rw [isPrintableAscii, Bool.and_eq_true, decide_eq_true_eq, decide_eq_true_eq] at hc
  exact hc

/-- Printable characters of ASCII, and line feeds between them. -/
def isLineChar (c : Char) : Bool := isPrintableAscii c || c == '\n'

theorem isLineChar_bounds (hc : isLineChar c = true) :
    (32 ≤ c.toNat ∧ c.toNat ≤ 126) ∨ c.toNat = 10 := by
  rw [isLineChar, Bool.or_eq_true, beq_iff_eq] at hc
  rcases hc with hprintable | rfl
  · exact .inl (isPrintableAscii_bounds hprintable)
  · exact .inr rfl

/-- A text of such characters is read as it stands. -/
theorem withLineFeeds_of_isLineChar (htext : ∀ c ∈ text, isLineChar c = true) :
    withLineFeeds text = text := by
  have hends : unifyLineEnds text = text := by
    induction text with
    | nil => rfl
    | cons c rest ih =>
        have hc : c ≠ '\r' := by
          rintro rfl
          exact absurd (htext _ List.mem_cons_self) (by decide)
        have hrest := ih fun other hother => htext other (List.mem_cons_of_mem c hother)
        rw [unifyLineEnds.eq_def]
        split
        · rename_i heq
          cases heq
        · rename_i heq
          exact absurd (List.cons.inj heq).1 hc
        · rename_i heq
          cases heq
          rw [if_neg hc, hrest]
  rw [withLineFeeds, hends]
  refine (List.map_congr_left fun c hc => ?_).trans (List.map_id text)
  have hbounds := isLineChar_bounds (htext c hc)
  rw [if_neg, id]
  simp only [List.mem_cons, List.not_mem_nil, or_false]
  omega

theorem withoutByteOrderMark_of_isLineChar (htext : ∀ c ∈ text, isLineChar c = true) :
    withoutByteOrderMark text = text := by
  rw [withoutByteOrderMark.eq_def]
  split
  · exact absurd (htext _ List.mem_cons_self) (by decide)
  · rfl

/-- The value of such a text is that of its tree. -/
theorem read_of_tree? {tree : Tree} (htext : ∀ c ∈ text, isLineChar c = true)
    (htree : tree? text = some tree) : read (String.ofList text) = tree.datum := by
  have hallowed : text.all isAllowed = true := by
    rw [List.all_eq_true]
    intro c hc
    have hbounds := isLineChar_bounds (htext c hc)
    simp [isAllowed, allowedRanges, Ranges.contains]
    omega
  rw [read, String.toList_ofList, withLineFeeds_of_isLineChar htext,
    withoutByteOrderMark_of_isLineChar htext, if_pos hallowed, htree]

theorem isLineChar_written {tree : Tree} (htree : tree.Writable) (hc : c ∈ tree.written) :
    isLineChar c = true := by
  rw [isLineChar, isPrintableAscii_written htree hc, Bool.true_or]

/-- The value of a written tree is that of the tree. -/
theorem read_written {tree : Tree} (htree : tree.Writable) :
    read (String.ofList tree.written) = tree.datum :=
  read_of_tree? (fun _ hc => isLineChar_written htree hc) (tree?_written htree)

/-! ### Constants -/

/-- The entries of a document that names these constants. -/
def constantsEntries (constants : List (String × Tree)) : List (Tree × Tree) :=
  [(.quoted "constants".toList,
    .map (constants.map fun constant => (.quoted constant.1.toList, constant.2)))]

def constantsTree (constants : List (String × Tree)) : Tree := .map (constantsEntries constants)

theorem writable_constantsTree {constants : List (String × Tree)}
    (hconstants : ∀ constant ∈ constants, constant.2.Writable) :
    (constantsTree constants).Writable := by
  have hall : (Tree.map (constants.map fun constant =>
      (.quoted constant.1.toList, constant.2))).Writable := by
    refine .map (fun entry hentry => ?_) fun entry hentry => ?_
    · obtain ⟨constant, -, rfl⟩ := List.mem_map.mp hentry
      exact .quoted _
    · obtain ⟨constant, hconstant, rfl⟩ := List.mem_map.mp hentry
      exact hconstants constant hconstant
  refine .map (fun entry hentry => ?_) fun entry hentry => ?_
  · rw [List.mem_singleton.mp hentry]
    exact .quoted _
  · rw [List.mem_singleton.mp hentry]
    exact hall

/-- The entries of a mapping whose keys are texts are read one by one. -/
theorem readEntries_quoted (entries : List (String × Tree × Datum))
    (hread : ∀ entry ∈ entries, entry.2.1.read = .ok entry.2.2) :
    Tree.readEntries (entries.map fun entry => (.quoted entry.1.toList, entry.2.1)) =
      some ⟨[], (entries.map fun entry => (Datum.text entry.1, entry.2.2)).map .ok⟩ := by
  induction entries with
  | nil => rfl
  | cons entry rest ih =>
      have hrest := ih fun other hother => hread other (List.mem_cons_of_mem entry hother)
      simp [Tree.readEntries, Tree.isMerging, Tree.key, Reading.both, hrest,
        hread entry List.mem_cons_self]

/-- A mapping whose keys are different texts is read as the mapping of their values. -/
theorem read_map_quoted {entries : List (String × Tree × Datum)}
    (hnames : (entries.map Prod.fst).Nodup)
    (hread : ∀ entry ∈ entries, entry.2.1.read = .ok entry.2.2) :
    (Tree.map (entries.map fun entry => (.quoted entry.1.toList, entry.2.1))).read =
      .ok (.map (entries.map fun entry => (.text entry.1, entry.2.2))) := by
  have hsame := Datum.ofEntries_of_nodup (entries.map fun entry => (entry.1, entry.2.2))
    (by simpa [Function.comp_def] using hnames)
  rw [Tree.read, readEntries_quoted entries hread]
  dsimp only
  rw [MapReading.read, MapReading.entries_of_own, Reading.all_ok]
  simpa [Reading.inside, Except.map, Except.mapError, Function.comp_def] using hsame

/-- The value of a document that names constants. -/
theorem datum_constantsTree {constants : List (String × Tree × Datum)}
    (hnames : (constants.map Prod.fst).Nodup)
    (hread : ∀ constant ∈ constants, constant.2.1.read = .ok constant.2.2) :
    (constantsTree (constants.map fun constant => (constant.1, constant.2.1))).datum =
      .ok (.map [(.text "constants",
        .map (constants.map fun constant => (.text constant.1, constant.2.2)))]) := by
  have hall := read_map_quoted hnames hread
  have hroot := @read_map_quoted [("constants", _, _)] (List.nodup_singleton _) fun entry hentry =>
    List.mem_singleton.mp hentry ▸ hall
  have htree : constantsTree (constants.map fun constant => (constant.1, constant.2.1)) =
      .map [(.quoted "constants".toList,
        .map (constants.map fun constant => (.quoted constant.1.toList, constant.2.1)))] := by
    rw [constantsTree, constantsEntries, List.map_map]
    rfl
  rw [htree, Tree.datum]
  exact congrArg (Except.mapError Flaw.error) hroot

end Yaml

end Reckon
