import Reckon.Proofs.Yaml.Written

/-
Mappings written line by line.  Each key begins a line, and its value stands behind the colon or, if
it is a mapping again, on lines of its own that are further in.  The reader tells by the columns
which lines belong together.
-/

namespace Reckon.Yaml

variable {text after : List Char} {c : Char} {column : Nat} {location : Location} {tree : Tree}

/-- The spaces in front of what stands at an indentation. -/
def pad (indent : Nat) : List Char := List.replicate indent ' '

mutual

/-- What stands behind the colon of a key with this indentation. -/
def Tree.lines : Tree → Nat → List Char
  | .map (entry :: rest), indent => entryLines (entry :: rest) (indent + 2)
  | tree, _ => ' ' :: tree.written

/-- Entries with this indentation, each behind the end of a line. -/
def entryLines : List (Tree × Tree) → Nat → List Char
  | [], _ => []
  | (key, value) :: rest, indent =>
      '\n' :: pad indent ++ (key.written ++ ':' :: (value.lines indent ++ entryLines rest indent))

end

/-- The tree can be written line by line.  Keys of mappings with lines of their own are short enough
for the reader. -/
inductive Tree.Lined : Tree → Prop
  | inline {tree : Tree} (htree : tree.Writable)
      (hlines : ∀ indent, tree.lines indent = ' ' :: tree.written) : Lined tree
  | map {entries : List (Tree × Tree)} (hentries : entries ≠ [])
      (hkeys : ∀ entry ∈ entries, entry.1.Writable)
      (hshort : ∀ entry ∈ entries, entry.1.written.length ≤ 1024)
      (hvalues : ∀ entry ∈ entries, Lined entry.2) : Lined (.map entries)

theorem writable_map_nil : (Tree.map []).Writable :=
  .map (fun _ hentry => absurd hentry List.not_mem_nil)
    fun _ hentry => absurd hentry List.not_mem_nil

/-- The text ends, or a line begins with less than this indentation. -/
inductive Closes (indent : Nat) : List Char → Prop
  | nil : Closes indent []
  | line {other : Nat} {c : Char} {rest : List Char} (hother : other < indent)
      (hc : opens c = true) : Closes indent ('\n' :: pad other ++ c :: rest)

theorem Closes.mono {indent more : Nat} (hafter : Closes indent after) (hmore : indent ≤ more) :
    Closes more after := by
  cases hafter with
  | nil => exact .nil
  | line hother hc => exact .line (hother.trans_le hmore) hc

/-! ### Lines and columns -/

/-- The location of what stands on the next line behind an indentation. -/
theorem after_pad (location : Location) (indent : Nat) :
    location.after ('\n' :: pad indent) =
      ⟨location.line + 1, indent + 1, location.offset + 1 + indent⟩ := by
  have hpad : '\n' ∉ pad indent := fun hmem => absurd (List.eq_of_mem_replicate hmem) (by decide)
  rw [Location.after_cons, Location.after_of_not_mem _ hpad, pad, List.length_replicate,
    Location.next, if_pos rfl, Nat.add_comm 1 indent]

theorem not_mem_written (htree : tree.Writable) : '\n' ∉ tree.written := fun hmem =>
  absurd (isPrintableAscii_written htree hmem) (by decide)

theorem blank_of_mem_pad (indent : Nat) : ∀ c ∈ '\n' :: pad indent, c = ' ' ∨ c = '\n' := by
  intro c hc
  rcases List.mem_cons.mp hc with rfl | hc
  · exact .inr rfl
  · exact .inl (List.eq_of_mem_replicate hc)

theorem skip_line (htext : BeginsSolid text) (indent : Nat) (location : Location) :
    skip ⟨'\n' :: pad indent ++ text, location⟩ =
      ⟨text, ⟨location.line + 1, indent + 1, location.offset + 1 + indent⟩⟩ := by
  rw [skip_append (blank_of_mem_pad indent) htext, after_pad]

theorem beginsSolid_of_opens (hc : opens c = true) (rest : List Char) : BeginsSolid (c :: rest) :=
  ⟨c, rest, rfl, (opens_ne hc).1⟩

theorem columnBehind_pad (indent : Nat) : columnBehind ('\n' :: pad indent) = indent + 1 := by
  have hreverse : ('\n' :: pad indent).reverse = pad indent ++ ['\n'] := by
    rw [List.reverse_cons, pad, List.reverse_replicate]
  have hall : ∀ c ∈ pad indent, (c != '\n') = true := by
    intro c hc
    rw [List.eq_of_mem_replicate hc]
    rfl
  rw [columnBehind, hreverse, List.takeWhile_append_of_pos hall]
  simp [pad]

/-- Blanks behind a plain scalar wait for what follows them. -/
theorem plainRest_append {gap blanks : List Char} {bracketed : Bool} {indent : Nat}
    (hgap : ∀ c ∈ gap, c = ' ' ∨ c = '\n') :
    plainRest bracketed indent blanks (gap ++ text) =
      plainRest bracketed indent (blanks ++ gap) text := by
  induction gap generalizing blanks with
  | nil => rw [List.nil_append, List.append_nil]
  | cons c gap ih =>
      have hrest := @ih (blanks ++ [c]) fun other hother =>
        hgap other (List.mem_cons_of_mem c hother)
      rw [List.cons_append, plainRest, if_pos (hgap c List.mem_cons_self), hrest,
        List.append_assoc, List.singleton_append]

/-- A plain scalar ends in front of a line that is not further in. -/
theorem Closes.stops (hafter : Closes column after) : Stops false column after := by
  cases hafter with
  | nil => rfl
  | @line other c rest hother hc =>
      obtain ⟨hspace, hbreak, -⟩ := (opens_ne hc).1
      have hblank : ¬(c = ' ' ∨ c = '\n') := not_or.mpr ⟨hspace, hbreak⟩
      have hleaves : goesOn false column ('\n' :: pad other) (c :: rest) = false := by
        have hcolumn : other + 1 ≤ column := hother
        simp [goesOn, columnBehind_pad, hcolumn]
      rw [Stops, plainRest_append (blank_of_mem_pad other), List.nil_append, plainRest,
        if_neg hblank, hleaves]
      rfl

/-- Nothing of a collection follows in front of such a line. -/
theorem Closes.following (hafter : Closes column after) (location : Location) :
    following (column + 1) ⟨after, location⟩ = .ends := by
  cases hafter with
  | nil => rfl
  | @line other c rest hother hc =>
      rw [Yaml.following, skip_line (beginsSolid_of_opens hc rest)]
      have hcolumn : other + 1 < column + 1 := by omega
      simp [hcolumn]

/-- No colon follows either. -/
theorem Closes.atMark_skip (hafter : Closes column after) (location : Location) :
    atMark ':' (skip ⟨after, location⟩) = false := by
  cases hafter with
  | nil => rfl
  | @line other c rest hother hc =>
      rw [skip_line (beginsSolid_of_opens hc rest)]
      simp [atMark, (opens_ne hc).2.1]

theorem atGap_lines (tree : Tree) (indent : Nat) (after : List Char) :
    atGap (tree.lines indent ++ after) = true := by
  cases tree with
  | map entries => cases entries <;> rfl
  | _ => rfl

/-! ### Reading line by line -/

/-- Wherever the tree stands behind the colon of a key it is read back, if there is fuel for two
steps a character. -/
def ReadsLines (tree : Tree) : Prop :=
  ∀ fuel indent after location, 2 * (tree.lines indent).length ≤ fuel →
    Closes (indent + 1) after → indent + 1 ≤ location.column →
      node? fuel ⟨indent + 1, false, true⟩ ⟨tree.lines indent ++ after, location⟩ =
        some (tree, ⟨after, location.after (tree.lines indent)⟩)

theorem readsLines_inline (htree : tree.Writable)
    (hlines : ∀ indent, tree.lines indent = ' ' :: tree.written) : ReadsLines tree := by
  intro fuel indent after location hfuel hafter hcolumn
  rw [hlines] at hfuel ⊢
  rw [List.length_cons] at hfuel
  obtain ⟨fuel, rfl⟩ : ∃ left, fuel = left + 1 := ⟨fuel - 1, by omega⟩
  have hskip := skip_space ((beginsSolid_written htree).append after) location
  have hend := atEnd_written htree after (location.next ' ')
  have hitem := atItem_written htree after (location.next ' ')
  have hmark := atMark_written htree (.inl rfl) after (location.next ' ')
  have hcontent := readsBack htree fuel false (indent + 1) after (location.next ' ') (by omega)
    hafter.stops
  have hcolon := hafter.atMark_skip ((location.next ' ').after tree.written)
  have hinside : ¬(location.next ' ').column ≤ indent + 1 := by
    simp [Location.next]
    omega
  simp [node?, hskip, hend, hinside, hitem, hmark, hcontent, hcolon]

/-- The text of an entry, up to the end of its last line. -/
def entryText (entry : Tree × Tree) (indent : Nat) : List Char :=
  entry.1.written ++ ':' :: entry.2.lines indent

theorem entryLines_cons (entry : Tree × Tree) (rest : List (Tree × Tree)) (indent : Nat) :
    entryLines (entry :: rest) indent =
      '\n' :: pad indent ++ (entryText entry indent ++ entryLines rest indent) := by
  simp [entryLines, entryText]

/-- Behind an entry a line begins that is not further in, or the text around it goes on. -/
theorem closes_entryLines {rest : List (Tree × Tree)} {indent : Nat}
    (hkeys : ∀ entry ∈ rest, entry.1.Writable) (hafter : Closes indent after) :
    Closes (indent + 1) (entryLines rest indent ++ after) := by
  cases rest with
  | nil => exact hafter.mono (Nat.le_succ indent)
  | cons entry rest =>
      obtain ⟨c, more, hwritten, hc⟩ := exists_written_cons (hkeys entry List.mem_cons_self)
      have hline : entryLines (entry :: rest) indent ++ after = '\n' :: pad indent ++
          c :: (more ++ ':' :: (entry.2.lines indent ++ entryLines rest indent) ++ after) := by
        simp [entryLines_cons, entryText, hwritten]
      exact hline ▸ .line (Nat.lt_succ_self indent) hc

/-- A short key is read with the value behind its colon. -/
theorem pair?_lines {entry : Tree × Tree} {indent fuel : Nat} (hkey : entry.1.Writable)
    (hshort : entry.1.written.length ≤ 1024) (hvalue : ReadsLines entry.2)
    (hfuel : 2 * (entryText entry indent).length ≤ fuel) (hcolumn : location.column = indent + 1)
    (hafter : Closes (indent + 1) after) :
    pair? fuel (indent + 1) ⟨entryText entry indent ++ after, location⟩ =
      some (entry, ⟨after, location.after (entryText entry indent)⟩) := by
  obtain ⟨key, value⟩ := entry
  dsimp only at hkey hshort hvalue
  simp only [entryText, List.length_append, List.length_cons] at hfuel
  obtain ⟨fuel, rfl⟩ : ∃ left, fuel = left + 1 := ⟨fuel - 1, by omega⟩
  have hmark := atMark_written hkey (.inl rfl) (':' :: (value.lines indent ++ after)) location
  have hcontent := readsBack hkey fuel false (indent + 1) (':' :: (value.lines indent ++ after))
    location (by omega) (stops_colon false _ (atGap_lines value indent after))
  have hbehind := Location.after_of_not_mem location (not_mem_written hkey)
  have hcolon := skip_solid (beginsSolid_colon (value.lines indent ++ after))
    (location.after key.written)
  have hatColon :
      atMark ':' ⟨':' :: (value.lines indent ++ after), location.after key.written⟩ = true := by
    simp [atMark, atGap_lines]
  have hcompletes : completes location
      ⟨':' :: (value.lines indent ++ after), location.after key.written⟩ = true := by
    simpa [completes, hbehind] using hshort
  have hinside : indent + 1 ≤ ((location.after key.written).next ':').column := by
    simp [hbehind, Location.next, hcolumn]
    omega
  have hnode := hvalue fuel indent after ((location.after key.written).next ':') (by omega) hafter
    hinside
  simp [pair?, entryText, hmark, hcontent, hcolon, hatColon, hcompletes, step_cons, hnode]

/-- Behind an entry the next one is found at the same column. -/
theorem following_entryLines {entry : Tree × Tree} {indent : Nat} (hkey : entry.1.Writable)
    (rest : List (Tree × Tree)) (after : List Char) (location : Location) :
    following (indent + 1) ⟨entryLines (entry :: rest) indent ++ after, location⟩ =
      .goesOn ⟨entryText entry indent ++ (entryLines rest indent ++ after),
        location.after ('\n' :: pad indent)⟩ := by
  have htext : entryText entry indent ++ (entryLines rest indent ++ after) = entry.1.written ++
      (':' :: entry.2.lines indent ++ (entryLines rest indent ++ after)) := by
    rw [entryText, List.append_assoc]
  rw [Yaml.following, entryLines_cons, List.append_assoc, List.append_assoc, htext,
    skip_line ((beginsSolid_written hkey).append _), after_pad, atEnd_written hkey]
  simp

/-- Entries one below the other are read as one mapping. -/
theorem mapping?_lines {entry : Tree × Tree} {rest : List (Tree × Tree)} {indent fuel : Nat}
    (hkeys : ∀ other ∈ entry :: rest, other.1.Writable)
    (hshort : ∀ other ∈ entry :: rest, other.1.written.length ≤ 1024)
    (hvalues : ∀ other ∈ entry :: rest, ReadsLines other.2)
    (hfuel : 2 * (entryText entry indent ++ entryLines rest indent).length < fuel)
    (hcolumn : location.column = indent + 1) (hafter : Closes indent after) :
    mapping? fuel (indent + 1) ⟨entryText entry indent ++ (entryLines rest indent ++ after),
      location⟩ = some (.map (entry :: rest),
        ⟨after, location.after (entryText entry indent ++ entryLines rest indent)⟩) := by
  induction rest generalizing entry fuel location with
  | nil =>
      obtain ⟨fuel, rfl⟩ := Nat.exists_eq_succ_of_ne_zero (Nat.ne_zero_of_lt hfuel)
      rw [entryLines, List.append_nil] at hfuel
      have hpair := pair?_lines (hkeys entry List.mem_cons_self) (hshort entry List.mem_cons_self)
        (hvalues entry List.mem_cons_self) (show _ ≤ fuel by omega) hcolumn
        (hafter.mono (Nat.le_succ indent))
      have hends := hafter.following (location.after (entryText entry indent))
      simp [mapping?, entryLines, hpair, hends]
  | cons next rest ih =>
      obtain ⟨fuel, rfl⟩ := Nat.exists_eq_succ_of_ne_zero (Nat.ne_zero_of_lt hfuel)
      rw [List.length_append, entryLines_cons, List.length_append, List.length_append,
        List.length_cons] at hfuel
      have hothers : ∀ other ∈ next :: rest, other ∈ entry :: next :: rest :=
        fun other hother => List.mem_cons_of_mem entry hother
      have hkey := hkeys next (hothers next List.mem_cons_self)
      have hpair := pair?_lines (hkeys entry List.mem_cons_self) (hshort entry List.mem_cons_self)
        (hvalues entry List.mem_cons_self) (show _ ≤ fuel by omega) hcolumn
        (closes_entryLines (fun other hother => hkeys other (hothers other hother)) hafter)
      have hnext := @following_entryLines next indent hkey rest after
        (location.after (entryText entry indent))
      -- The next entry begins at the column of this one, so the others are read like this one.
      have hmore := ih (fun other hother => hkeys other (hothers other hother))
        (fun other hother => hshort other (hothers other hother))
        (fun other hother => hvalues other (hothers other hother))
        (show _ < fuel by rw [List.length_append]; omega)
        (show (((location.after (entryText entry indent)).after ('\n' :: pad indent)).column =
          indent + 1) by rw [after_pad])
      have hlocation : location.after (entryText entry indent ++ entryLines (next :: rest) indent) =
          ((location.after (entryText entry indent)).after ('\n' :: pad indent)).after
            (entryText next indent ++ entryLines rest indent) := by
        rw [entryLines_cons, Location.after_append, Location.after_append]
      simp only [mapping?, hpair, hnext, hmore, hlocation, Option.bind_eq_bind, Option.bind_some,
        Option.pure_def]

/-- A key that begins a line begins a mapping. -/
theorem node?_entry {entry : Tree × Tree} {indent fuel : Nat} {place : Place} {cursor : Cursor}
    (hkey : entry.1.Writable) (hfuel : 2 * entry.1.written.length ≤ fuel)
    (hskip : skip cursor = ⟨entryText entry indent ++ after, location⟩)
    (hbegins : place.begins = true ∨ cursor.location.line < location.line)
    (hcolumn : place.indent < location.column) :
    node? (fuel + 1) place cursor =
      mapping? fuel location.column ⟨entryText entry indent ++ after, location⟩ := by
  have htext : entryText entry indent ++ after =
      entry.1.written ++ ':' :: (entry.2.lines indent ++ after) := by
    simp [entryText]
  rw [htext] at hskip ⊢
  generalize hrest : entry.2.lines indent ++ after = rest at hskip ⊢
  have hend := atEnd_written hkey (':' :: rest) location
  have hitem := atItem_written hkey (':' :: rest) location
  have hmark := atMark_written hkey (.inl rfl) (':' :: rest) location
  have hgap : atGap rest = true := hrest ▸ atGap_lines entry.2 indent after
  have hcontent := readsBack hkey fuel false place.indent (':' :: rest) location hfuel
    (stops_colon false _ hgap)
  have hcolon := skip_solid (beginsSolid_colon rest) (location.after entry.1.written)
  have hatColon : atMark ':' ⟨':' :: rest, location.after entry.1.written⟩ = true := by
    simp [atMark, hgap]
  have hfirst : (place.begins || decide (cursor.location.line < location.line)) = true := by
    simpa using hbegins
  have hinside : ¬location.column ≤ place.indent := Nat.not_le.mpr hcolumn
  simp [node?, hskip, hend, hinside, hitem, hmark, hcontent, hcolon, hatColon, hfirst]

/-- A mapping stands on the lines below its key, two columns further in. -/
theorem readsLines_map {entries : List (Tree × Tree)} (hentries : entries ≠ [])
    (hkeys : ∀ other ∈ entries, other.1.Writable)
    (hshort : ∀ other ∈ entries, other.1.written.length ≤ 1024)
    (hvalues : ∀ other ∈ entries, ReadsLines other.2) : ReadsLines (.map entries) := by
  intro fuel indent after location hfuel hafter hcolumn
  obtain ⟨entry, rest, rfl⟩ := List.exists_cons_of_ne_nil hentries
  have hkey := hkeys entry List.mem_cons_self
  rw [Tree.lines, entryLines_cons] at hfuel ⊢
  rw [List.length_append, List.length_cons] at hfuel
  obtain ⟨fuel, rfl⟩ : ∃ left, fuel = left + 1 := ⟨fuel - 1, by omega⟩
  have hsolid : BeginsSolid (entryText entry (indent + 2) ++
      (entryLines rest (indent + 2) ++ after)) := by
    rw [entryText, List.append_assoc]
    exact (beginsSolid_written hkey).append _
  have hskip := skip_line hsolid (indent + 2) location
  have hmapping := @mapping?_lines after
    ⟨location.line + 1, indent + 2 + 1, location.offset + 1 + (indent + 2)⟩ entry rest (indent + 2)
    fuel hkeys hshort hvalues (by omega) rfl (hafter.mono (Nat.le_succ (indent + 1)))
  have hlength : 2 * entry.1.written.length ≤ fuel := by
    simp only [entryText, List.length_append, List.length_cons] at hfuel
    omega
  rw [List.append_assoc, List.append_assoc, node?_entry hkey hlength hskip
    (.inr (Nat.lt_succ_self _)) (show indent + 1 < indent + 2 + 1 by omega), hmapping,
    Location.after_append _ ('\n' :: pad (indent + 2)), after_pad]

/-- A tree that can be written line by line is read back. -/
theorem readsLines {tree : Tree} (htree : tree.Lined) : ReadsLines tree := by
  induction htree with
  | inline htree hlines => exact readsLines_inline htree hlines
  | map hentries hkeys hshort _ ih => exact readsLines_map hentries hkeys hshort ih

/-! ### Documents -/

/-- A mapping as a document of lines.  The first of them has nothing in front of it. -/
def document : List (Tree × Tree) → List Char
  | [] => (Tree.map []).written
  | entry :: rest => entryText entry 0 ++ entryLines rest 0

/-- What makes up a mapping that can be written line by line. -/
theorem lined_map_iff {entries : List (Tree × Tree)} : (Tree.map entries).Lined ↔
    ∀ entry ∈ entries, entry.1.Writable ∧ entry.1.written.length ≤ 1024 ∧ entry.2.Lined := by
  constructor
  · intro htree entry hentry
    cases htree with
    | inline hwritable hlines =>
        cases entries with
        | nil => exact absurd hentry List.not_mem_nil
        | cons first rest => exact absurd (List.cons.inj (hlines 0)).1 (by decide)
    | map hentries hkeys hshort hvalues =>
        exact ⟨hkeys entry hentry, hshort entry hentry, hvalues entry hentry⟩
  · intro hall
    by_cases hentries : entries = []
    · subst hentries
      exact .inline writable_map_nil fun indent => rfl
    · exact .map hentries (fun entry hentry => (hall entry hentry).1)
        (fun entry hentry => (hall entry hentry).2.1) fun entry hentry => (hall entry hentry).2.2

/-- A mapping written line by line is a document. -/
theorem tree?_document {entries : List (Tree × Tree)} (htree : (Tree.map entries).Lined) :
    tree? (document entries) = some (.map entries) := by
  cases entries with
  | nil => exact tree?_written writable_map_nil
  | cons entry rest =>
      have hentries := lined_map_iff.mp htree
      have hkey := (hentries entry List.mem_cons_self).1
      have hlength : (entryText entry 0).length = entry.1.written.length + 1 +
          (entry.2.lines 0).length := by
        rw [entryText, List.length_append, List.length_cons]
        omega
      have hmapping := @mapping?_lines [] Location.origin entry rest 0
        (8 * (document (entry :: rest)).length + 7) (fun other hother => (hentries other hother).1)
        (fun other hother => (hentries other hother).2.1)
        (fun other hother => readsLines (hentries other hother).2.2)
        (by rw [document]; omega) rfl .nil
      rw [List.append_nil] at hmapping
      have hsolid : BeginsSolid (document (entry :: rest)) := by
        rw [document, entryText, List.append_assoc]
        exact (beginsSolid_written hkey).append _
      have hskip := skip_solid hsolid Location.origin
      have hnode := @node?_entry _ _ entry 0 (8 * (document (entry :: rest)).length + 7)
        ⟨0, true, false⟩ _ hkey (by rw [document, List.length_append]; omega) hskip (.inl rfl)
        (Nat.zero_lt_succ 0)
      have hmarker : atMarker ⟨document (entry :: rest), Location.origin⟩ = false := by
        rw [atMarker, document, entryText, List.append_assoc, isMarker_written hkey, Bool.and_false]
      have hread := hnode.trans hmapping
      simp [tree?, hskip, hmarker, hread, skipEnds, skip_nil]

/-- Lines are made of printable characters of ASCII, and of line feeds between them. -/
theorem isLineChar_entryText {entry : Tree × Tree} {indent : Nat} (hkey : entry.1.Writable)
    (hvalue : ∀ indent, ∀ c ∈ entry.2.lines indent, isLineChar c = true)
    (hc : c ∈ entryText entry indent) : isLineChar c = true := by
  rw [entryText, List.mem_append, List.mem_cons] at hc
  rcases hc with hmem | rfl | hmem
  · exact isLineChar_written hkey hmem
  · decide
  · exact hvalue indent c hmem

theorem isLineChar_entryLines {entries : List (Tree × Tree)} {indent : Nat}
    (hkeys : ∀ entry ∈ entries, entry.1.Writable)
    (hvalues : ∀ entry ∈ entries, ∀ indent, ∀ c ∈ entry.2.lines indent, isLineChar c = true)
    (hc : c ∈ entryLines entries indent) : isLineChar c = true := by
  induction entries with
  | nil => cases hc
  | cons entry rest ih =>
      rw [entryLines_cons, List.mem_append, List.mem_append] at hc
      rcases hc with hgap | hentry | hrest
      · rcases blank_of_mem_pad indent c hgap with rfl | rfl <;> decide
      · exact isLineChar_entryText (hkeys entry List.mem_cons_self)
          (hvalues entry List.mem_cons_self) hentry
      · exact ih (fun other hother => hkeys other (List.mem_cons_of_mem entry hother))
          (fun other hother => hvalues other (List.mem_cons_of_mem entry hother)) hrest

theorem isLineChar_lines (htree : tree.Lined) :
    ∀ indent, ∀ c ∈ tree.lines indent, isLineChar c = true := by
  induction htree with
  | inline htree hlines =>
      intro indent c hc
      rw [hlines, List.mem_cons] at hc
      rcases hc with rfl | hmem
      · decide
      · exact isLineChar_written htree hmem
  | map hentries hkeys hshort hvalues ih =>
      intro indent c hc
      obtain ⟨entry, rest, rfl⟩ := List.exists_cons_of_ne_nil hentries
      exact isLineChar_entryLines hkeys ih hc

/-- The value of a mapping that is written line by line is that of the mapping. -/
theorem read_document {entries : List (Tree × Tree)} (htree : (Tree.map entries).Lined) :
    read (String.ofList (document entries)) = (Tree.map entries).datum := by
  refine read_of_tree? (fun c hc => ?_) (tree?_document htree)
  have hentries := lined_map_iff.mp htree
  cases entries with
  | nil => exact isLineChar_written writable_map_nil hc
  | cons entry rest =>
      have hlines : c ∈ entryLines (entry :: rest) 0 := by
        rw [entryLines_cons]
        exact List.mem_append_right _ hc
      exact isLineChar_entryLines (fun other hother => (hentries other hother).1)
        (fun other hother => isLineChar_lines (hentries other hother).2.2) hlines

/-- Constants with short names can be written one below the other. -/
theorem lined_constantsTree {constants : List (String × Tree)}
    (hshort : ∀ constant ∈ constants,
      (Tree.quoted constant.1.toList).written.length ≤ 1024)
    (hconstants : ∀ constant ∈ constants, constant.2.Lined) :
    (constantsTree constants).Lined := by
  have hall : (Tree.map (constants.map fun constant =>
      (.quoted constant.1.toList, constant.2))).Lined := by
    rw [lined_map_iff]
    intro entry hentry
    obtain ⟨constant, hconstant, rfl⟩ := List.mem_map.mp hentry
    exact ⟨.quoted _, hshort constant hconstant, hconstants constant hconstant⟩
  rw [constantsTree, lined_map_iff]
  intro entry hentry
  rw [List.mem_singleton.mp hentry]
  exact ⟨.quoted _, show (Tree.quoted "constants".toList).written.length ≤ 1024 by decide, hall⟩

end Reckon.Yaml
