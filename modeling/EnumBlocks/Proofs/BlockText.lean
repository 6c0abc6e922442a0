import EnumBlocks.Proofs.Entry
import EnumBlocks.Proofs.Reading

/-!
The lines of one block, as they are located and as they are read. A located block whose braces are
where they can be seen is read to its last line and no further. A written block is such a block, and
reading it gives back what was written.
-/

namespace EnumBlocks

namespace Reading

theorem ofLines_concat (lines : List Text) (line : Text) :
    ofLines (lines ++ [line]) = (ofLines lines).step (1 + lines.length) line :=
  run_append {} 1 lines [line]

variable {line : Text} {declaration : Declaration}

theorem step_eq_declare (read : Declaration.ofLine? line = some declaration) (reading : Reading)
    (number : Nat) :
    reading.step number line = reading.declare number (Text.strip line) declaration.name := by
  have ordinary : ¬ isDirective (Text.strip line) = true := by
    intro directive
    rw [ofLine?_eq_none_of_isDirective directive] at read
    contradiction
  rw [step, if_neg ordinary, takeLine, read]

theorem step_of_ofLine? (read : Declaration.ofLine? line = some declaration) (reading : Reading)
    (number : Nat) :
    (reading.step number line).depth = reading.depth + netBraces line ∧
      (reading.step number line).scopes =
        if 0 < openCount line ∧ netBraces line ≤ 0 then reading.scopes
        else ⟨reading.declared.length, declaration.name, reading.depth⟩ :: reading.scopes := by
  rw [step_eq_declare read]
  simp [declare]

theorem declared_step_of_ofLine? (read : Declaration.ofLine? line = some declaration)
    (unopened : openCount line = 0) (reading : Reading) (number : Nat) :
    (reading.step number line).declared = reading.declared ++ [⟨declaration.name, []⟩] := by
  rw [step_eq_declare read]
  simp [declare, unopened]

end Reading

section Located

variable {name : Text} {body : List Text} {opening : Nat}
  (extent : IsExtent name .perCharacter body opening)

include extent in
/-- The lines of a located block: it opens on the line at `opening`, and what opens there is closed
by its last line. -/
theorem IsExtent.parts :
    (∀ line ∈ body.take opening, openCount line = 0) ∧
      (∀ line ∈ (body.drop opening).head?, 0 < openCount line) ∧
      linesToClose? .perCharacter 0 (body.drop opening) =
        some ((body.drop opening).length - 1) := by
  obtain ⟨-, opened, closed⟩ := spanOf_eq_ok_iff.mp extent
  have bounds := spanOf_bounds extent
  obtain ⟨index, found, equality⟩ := Option.map_eq_some_iff.mp opened
  simp only [Nat.zero_add] at equality
  subst equality
  obtain ⟨inside, opens, before⟩ := List.findIdx?_eq_some_iff_getElem.mp found
  simp only [List.drop_zero] at inside opens before
  obtain ⟨count, closing, total⟩ := Option.map_eq_some_iff.mp closed
  refine ⟨?_, ?_, ?_⟩
  · intro line membership
    obtain ⟨place, bound, rfl⟩ := List.mem_iff_getElem.mp membership
    rw [List.length_take] at bound
    have unopened := before place (by omega)
    simpa [Counting.opens] using unopened
  · intro line membership
    rw [List.head?_drop, List.getElem?_eq_getElem inside, Option.mem_some_iff] at membership
    subst membership
    simpa [Counting.opens] using opens
  · have sum : index + count = body.length - 1 := total
    rw [closing, List.length_drop]
    congr 1
    omega

include extent in
theorem settled_of_isExtent (named : IsName name)
    (alone : ∀ line ∈ body.tail, Declaration.ofLine? line = none)
    (bracelessDirectives :
      ∀ line ∈ body, isDirective (Text.strip line) = true → Braceless (codeOf line)) :
    Settled body := by
  rcases extent.exists_header with ⟨header, rest, rfl, declared⟩
  rcases extent.parts with ⟨unopened, opens, closed⟩
  obtain ⟨declaration, read, -⟩ := (declares_iff named header).mp declared
  have first := Reading.step_of_ofLine? read {} 1
  simp only [Int.zero_add, List.length_nil] at first
  rw [List.tail_cons] at alone
  rw [List.forall_mem_cons] at bracelessDirectives
  rw [Settled, Reading.ofLines, Reading.run]
  cases opening with
  | zero =>
      -- The header opens the block itself, and may also close it.
      have headerOpens : 0 < openCount header := opens header rfl
      rw [List.drop_zero, linesToClose?, Counting.delta, Int.zero_add] at closed
      split at closed
      · rename_i balanced
        rw [if_pos ⟨headerOpens, balanced⟩] at first
        exact Reading.run_of_scopes_eq_nil first.2 _ alone
      · rename_i unbalanced
        obtain ⟨count, found, equality⟩ := Option.map_eq_some_iff.mp closed
        rw [if_neg (by omega)] at first
        have shallow : (Reading.step {} 1 header).depth ≤ 0 + netBraces header := by omega
        refine Reading.run_of_linesToClose? first.2 _ alone bracelessDirectives.2 shallow ?_
          (.inl (Int.not_le.mp unbalanced))
        rw [found]
        rw [List.length_cons, Nat.add_sub_cancel] at equality
        congr 1
        omega
  | succ opening =>
      have headerUnopened : openCount header = 0 := unopened header (by simp)
      have counts : netBraces header = openCount header - closeCount header := rfl
      rw [if_neg (by omega)] at first
      rw [List.take_succ_cons, List.forall_mem_cons] at unopened
      rw [List.drop_succ_cons] at opens closed
      rw [← List.take_append_drop opening rest, Reading.run_append]
      rw [← List.take_append_drop opening rest, List.forall_mem_append] at alone
      have bracelessRest := bracelessDirectives.2
      rw [← List.take_append_drop opening rest, List.forall_mem_append] at bracelessRest
      have waiting :=
        Reading.run_of_unopened first.2 (1 + 1) alone.1 bracelessRest.1 unopened.2
      rcases waiting with early | ⟨still, shallower⟩
      · exact Reading.run_of_scopes_eq_nil early _ alone.2
      · have shallow : (Reading.run (Reading.step {} 1 header) (1 + 1) (rest.take opening)).depth ≤
            0 + 0 := by omega
        exact Reading.run_of_linesToClose? still _ alone.2 bracelessRest.2 shallow closed
          (.inr ⟨rfl, opens⟩)

end Located

/-- Whether some lines are those of one block, which is located in them as a whole and is what they
are read as. -/
structure IsBlockText (block : Block) (body : List Text) : Prop where
  named : IsName block.name
  extent : ∃ opening, IsExtent block.name .perCharacter body opening
  alone : ∀ line ∈ body.tail, Declaration.ofLine? line = none
  settled : Settled body
  declared : declaredIn body = [block]
  bracelessAttributes : Braceless (attributesOf (body.headD []))

/-- Whether a block is read back wherever it is written. -/
structure Block.Plain (block : Block) : Prop where
  named : IsName block.name
  entries : ∀ entry ∈ block.entries, entry.isWritten = true → entry.Plain

instance (block : Block) : Decidable block.Plain :=
  decidable_of_iff (IsName block.name ∧
      ∀ entry ∈ block.entries, entry.isWritten = true → entry.Plain)
    ⟨fun ⟨named, entries⟩ => ⟨named, entries⟩, fun ⟨named, entries⟩ => ⟨named, entries⟩⟩

theorem Block.Plain.flat {block : Block} (plain : block.Plain) :
    ∀ entry ∈ block.entries, entry.isWritten = true → entry.Flat :=
  fun entry present written => (plain.entries entry present written).flat

def Block.entryLines (block : Block) (indent : Text) (settings : Settings) : List Text :=
  (block.entries.filter Entry.isWritten).map (Entry.render · (indent ++ settings.indentUnit))

/-- The lines that a block is written as, up to the last one, which closes it. -/
def Block.openLines (block : Block) (indent attributes : Text) (settings : Settings) : List Text :=
  headerLine block.name indent attributes settings :: (indent ++ ['{']) ::
    block.entryLines indent settings

theorem Block.render_eq_openLines_concat (block : Block) (indent attributes : Text)
    (settings : Settings) :
    block.render indent attributes settings =
      block.openLines indent attributes settings ++ [indent ++ ['}']] := by
  simp [Block.render_eq, Block.bodyLines, Block.openLines, Block.entryLines]

theorem length_render (block : Block) (indent attributes : Text) (settings : Settings) :
    (block.render indent attributes settings).length =
      (block.entryLines indent settings).length + 3 := by
  rw [Block.render_eq_openLines_concat, List.length_append, Block.openLines]
  rfl

/-- The block as it is read back: without the entries that are not written, and trimmed. -/
def Block.readBack (block : Block) : Block :=
  ⟨block.name, (block.entries.filter Entry.isWritten).map Entry.trimmed⟩

theorem readBack_eq_self {block : Block} (named : ∀ entry ∈ block.entries, IsName entry.name)
    (trimmed : ∀ entry ∈ block.entries, entry.trimmed = entry) : block.readBack = block := by
  have written : block.entries.filter Entry.isWritten = block.entries :=
    List.filter_eq_self.mpr fun entry membership => isWritten_of_isName (named entry membership)
  rw [Block.readBack, written, List.map_congr_left trimmed, List.map_id']

section Written

variable {settings : Settings} (readable : settings.Readable) {indent : Text}
  (blank : Text.isBlankText indent = true)

include blank in
theorem strip_brace {brace : Char} (isBrace : brace = '{' ∨ brace = '}') :
    Text.strip (indent ++ [brace]) = [brace] := by
  rw [Text.strip_indent_append blank]
  rcases isBrace with rfl | rfl <;> decide

include blank in
theorem netBraces_openingBrace : netBraces (indent ++ ['{']) = 1 := by
  rw [← netBraces_strip, strip_brace blank (.inl rfl)]
  decide

include blank in
theorem netBraces_closingBrace : netBraces (indent ++ ['}']) = -1 := by
  rw [← netBraces_strip, strip_brace blank (.inr rfl)]
  decide

include readable blank in
theorem braceless_headerLine {name attributes : Text} (named : IsName name)
    (bracelessAttributes : Braceless attributes) :
    Braceless (headerLine name indent attributes settings) := by
  have bracelessIndent := braceless_of_isBlankText blank
  have bracelessName := braceless_of_isWord named.2
  constructor
  · exact not_mem_headerLine bracelessName.1 bracelessIndent.1 bracelessAttributes.1
      (readable.not_mem_accessModifier (by decide)) (by decide)
  · exact not_mem_headerLine bracelessName.2 bracelessIndent.2 bracelessAttributes.2
      (readable.not_mem_accessModifier (by decide)) (by decide)

section Counting

variable (counting : Counting)

include blank in
theorem delta_openingBrace : counting.delta (indent ++ ['{']) = 1 := by
  cases counting with
  | perLine => simp [Counting.delta, (braceless_of_isBlankText blank).2]
  | perCharacter => exact netBraces_openingBrace blank

include blank in
theorem delta_closingBrace : counting.delta (indent ++ ['}']) = -1 := by
  cases counting with
  | perLine => simp [Counting.delta, (braceless_of_isBlankText blank).1]
  | perCharacter => exact netBraces_closingBrace blank

include blank in
theorem opens_openingBrace : counting.opens (indent ++ ['{']) = true := by
  cases counting with
  | perLine => simp [Counting.opens]
  | perCharacter =>
      have counts : netBraces (indent ++ ['{']) =
        openCount (indent ++ ['{']) - closeCount (indent ++ ['{']) := rfl
      rw [netBraces_openingBrace blank] at counts
      rw [Counting.opens, decide_eq_true_eq]
      omega

end Counting

variable {block : Block} (named : IsName block.name)
  (flat : ∀ entry ∈ block.entries, entry.isWritten = true → entry.Flat) {attributes : Text}
  (list : IsAttributeList attributes) (bracelessAttributes : Braceless attributes)

include readable blank flat in
theorem braceless_entryLines :
    ∀ line ∈ block.entryLines indent settings, Braceless (codeOf line) := by
  intro line membership
  obtain ⟨entry, kept, rfl⟩ := List.mem_map.mp membership
  obtain ⟨present, written⟩ := List.mem_filter.mp kept
  have entryFlat := flat entry present written
  exact braceless_codeOf_render entryFlat.named (isBlankText_entryIndent readable blank)
    entryFlat.unquoted entryFlat.braceless

include readable blank named list bracelessAttributes in
/-- Where a written block ends is decided by its entries and by what follows it. -/
theorem spanOf_render_append (counting : Counting) (back : List Text) :
    spanOf block.name (block.render indent attributes settings ++ back) counting =
      match linesToClose? counting 1 (block.entryLines indent settings ++
        (indent ++ ['}']) :: back) with
      | none => .error (.unclosed block.name)
      | some count => .ok ⟨0, 1, 1 + (count + 1)⟩ := by
  let header := headerLine block.name indent attributes settings
  let body := (indent ++ ['{']) :: (block.entryLines indent settings ++ (indent ++ ['}']) :: back)
  have whole : block.render indent attributes settings ++ back = header :: body := by
    simp [Block.render_eq, Block.bodyLines, Block.entryLines, header, body]
  have headed : headLine? block.name (header :: body) = some 0 := by
    rw [headLine?, List.findIdx?_cons,
      (declares_headerLine_iff readable named blank list named).mpr rfl]
    rfl
  have opened : openingLine? counting 0 (header :: body) = some 1 := by
    rw [openingLine?, List.drop_zero, List.findIdx?_cons,
      opens_of_braceless counting (braceless_headerLine readable blank named bracelessAttributes),
      List.findIdx?_cons, opens_openingBrace blank]
    rfl
  have closed : closingLine? counting 1 (header :: body) =
      (linesToClose? counting 1 (block.entryLines indent settings ++
        (indent ++ ['}']) :: back)).map fun count => 1 + (count + 1) := by
    rw [closingLine?, List.drop_one, List.tail_cons, linesToClose?, delta_openingBrace blank,
      if_neg (by decide), Option.map_map]
    rfl
  rw [whole, spanOf, headed]
  simp only [opened, closed]
  cases linesToClose? counting 1
      (block.entryLines indent settings ++ (indent ++ ['}']) :: back) with
  | none => rfl
  | some count => rfl

include readable blank named flat list bracelessAttributes in
theorem isExtent_render :
    IsExtent block.name .perCharacter (block.render indent attributes settings) 1 := by
  have level : ∀ line ∈ block.entryLines indent settings, Counting.perCharacter.delta line = 0 :=
    fun line membership =>
      netBraces_eq_zero (braceless_entryLines readable blank flat line membership)
  have located := spanOf_render_append readable blank named list bracelessAttributes
    .perCharacter []
  rw [linesToClose?_append_of_staysOpen (staysOpen_of_level level (by decide)),
    total_of_level level, linesToClose?, delta_closingBrace blank, if_pos (by decide),
    List.append_nil] at located
  have size : (block.render indent attributes settings).length - 1 =
      1 + (0 + (block.entryLines indent settings).length + 1) := by
    rw [length_render]
    omega
  rw [IsExtent, located, size]
  rfl

include blank in
theorem classify_openingBrace {depth bodyDepth : Int} (inside : bodyDepth < depth) :
    BodyLine.classify (indent ++ ['{']) depth bodyDepth = .skip := by
  rw [BodyLine.classify, strip_brace blank (.inl rfl), if_neg (by omega)]
  simp

include blank in
theorem classify_closingBrace (depth : Int) :
    BodyLine.classify (indent ++ ['}']) depth depth = .closing [] := by
  rw [BodyLine.classify, strip_brace blank (.inr rfl), if_pos (by omega)]
  rfl

include blank in
theorem classify_render {entry : Entry} (entryPlain : entry.Plain) {depth bodyDepth : Int}
    (inside : bodyDepth < depth) :
    BodyLine.classify (entry.render indent) depth bodyDepth = .entries [entry.trimmed] := by
  rcases entryPlain.named.exists_cons with ⟨first, others, shape, word⟩
  have read : lineEntries (Text.strip (entry.render indent)) = [entry.trimmed] := by
    rw [lineEntries, parse?_strip, parse?_render entryPlain.named blank entryPlain.noComma
      entryPlain.noComment entryPlain.oneLine]
  have ordinary : ¬ (Text.strip (entry.render indent) = [] ∨
      ['/', '/'] <+: Text.strip (entry.render indent) ∨
      Text.strip (entry.render indent) = ['{']) := by
    rw [strip_render entryPlain.named blank, shape, List.cons_append]
    rintro (empty | comment | brace)
    · contradiction
    · have mark := (List.cons_prefix_cons.mp comment).1
      subst mark
      exact absurd word (by decide)
    · have mark := (List.cons.inj brace).1
      subst mark
      exact absurd word (by decide)
  rw [BodyLine.classify, if_neg (by omega), if_neg ordinary, read]

end Written

namespace Reading

/-- Whether a reading is inside the body of the only block so far. -/
structure IsInside (block : Block) (depth : Int) (reading : Reading) : Prop where
  depth : reading.depth = depth
  declared : reading.declared = [block]
  scopes : reading.scopes = [⟨0, block.name, 0⟩]

section Inside

variable {block : Block} {depth : Int} {reading : Reading} (inside : reading.IsInside block depth)
  (number : Nat) {line : Text} (plain : Declaration.ofLine? line = none)
  (ordinary : isDirective (Text.strip line) = false)

include inside plain ordinary in
theorem IsInside.step :
    (reading.step number line).depth = depth + netBraces line ∧
      (reading.step number line).declared =
        [block.append (BodyLine.classify line (depth + netBraces line) 0).added] ∧
      (reading.step number line).scopes =
        if (BodyLine.classify line (depth + netBraces line) 0).isClosing then []
        else [⟨0, block.name, 0⟩] := by
  have opened : { reading with depth := reading.depth + netBraces line }.scopes =
      [⟨0, block.name, 0⟩] := inside.scopes
  have effect := continueBody_of_scopes_eq_cons number line opened
  rw [Reading.step, if_neg (by simp [ordinary]), takeLine, plain]
  simp only [netBraces_strip]
  simp only [inside.depth, inside.declared] at effect ⊢
  exact effect

include inside plain ordinary in
theorem IsInside.step_open
    (opened : (BodyLine.classify line (depth + netBraces line) 0).isClosing = false) :
    (reading.step number line).IsInside
      (block.append (BodyLine.classify line (depth + netBraces line) 0).added)
      (depth + netBraces line) := by
  have effect := inside.step number plain ordinary
  rw [opened] at effect
  exact ⟨effect.1, effect.2.1, effect.2.2⟩

end Inside

theorem IsInside.run_render {indent : Text} (blank : Text.isBlankText indent = true)
    {entries : List Entry} (plain : ∀ entry ∈ entries, entry.Plain) {block : Block}
    {reading : Reading} (inside : reading.IsInside block 1) (number : Nat) :
    (reading.run number (entries.map (Entry.render · indent))).IsInside
      (block.append (entries.map Entry.trimmed)) 1 := by
  induction entries generalizing block reading number with
  | nil =>
      rw [List.map_nil, List.map_nil, Block.append, List.append_nil]
      exact inside
  | cons entry rest inductionHypothesis =>
      have entryPlain := plain entry (by simp)
      have level : (1 : Int) + netBraces (entry.render indent) = 1 := by
        rw [netBraces_eq_zero (braceless_codeOf_render entryPlain.named blank entryPlain.unquoted
          entryPlain.braceless)]
        rfl
      have next := inside.step_open number (ofLine?_render entryPlain.named blank)
        (isDirective_render entryPlain.named blank entryPlain.notUsing entryPlain.notImport)
      rw [level, classify_render blank entryPlain (by decide)] at next
      have remaining := inductionHypothesis
        (fun other membership => plain other (by simp [membership])) (next rfl) (number + 1)
      simp only [Block.append, List.append_assoc] at remaining
      exact remaining

end Reading

section Written

variable {settings : Settings} (readable : settings.Readable) {indent : Text}
  (blank : Text.isBlankText indent = true) {block : Block} (plain : block.Plain)
  {attributes : Text} (list : IsAttributeList attributes)
  (bracelessAttributes : Braceless attributes)

include blank in
theorem isDirective_brace {brace : Char} (isBrace : brace = '{' ∨ brace = '}') :
    isDirective (Text.strip (indent ++ [brace])) = false := by
  rw [strip_brace blank isBrace]
  rcases isBrace with rfl | rfl <;> decide

include readable blank plain list bracelessAttributes in
theorem isInside_openLines :
    (Reading.ofLines (block.openLines indent attributes settings)).IsInside block.readBack 1 := by
  have header := braceless_codeOf
    (braceless_headerLine readable blank plain.named bracelessAttributes)
  have read := ofLine?_headerLine readable plain.named blank list
  have declared := Reading.declared_step_of_ofLine? read (openCount_eq_zero header) {} 1
  have effect := Reading.step_of_ofLine? read {} 1
  rw [netBraces_eq_zero header, openCount_eq_zero header, if_neg (by omega)] at effect
  have headed : (Reading.step {} 1 (headerLine block.name indent attributes settings)).IsInside
      ⟨block.name, []⟩ 0 := ⟨effect.1, declared, effect.2⟩
  have opened := headed.step_open (1 + 1) (ofLine?_brace blank (.inl rfl))
    (isDirective_brace blank (.inl rfl))
  rw [netBraces_openingBrace blank, classify_openingBrace blank (by decide)] at opened
  have entriesPlain : ∀ entry ∈ block.entries.filter Entry.isWritten, entry.Plain := by
    intro entry membership
    obtain ⟨present, written⟩ := List.mem_filter.mp membership
    exact plain.entries entry present written
  exact (opened rfl).run_render (isBlankText_entryIndent readable blank) entriesPlain (1 + 1 + 1)

include readable blank plain list bracelessAttributes in
/-- A written block is read as it is, and is closed by its last line. -/
theorem ofLines_render :
    (Reading.ofLines (block.render indent attributes settings)).declared = [block.readBack] ∧
      (Reading.ofLines (block.render indent attributes settings)).scopes = [] := by
  have entered := isInside_openLines readable blank plain list bracelessAttributes
  have closed := entered.step (1 + (block.openLines indent attributes settings).length)
    (ofLine?_brace blank (.inr rfl)) (isDirective_brace blank (.inr rfl))
  have level : (1 : Int) + -1 = 0 := rfl
  rw [netBraces_closingBrace blank, level, classify_closingBrace blank] at closed
  rw [Block.render_eq_openLines_concat, Reading.ofLines_concat, closed.2.1, closed.2.2]
  simp [Block.append, BodyLine.added, BodyLine.isClosing]

include readable blank plain list bracelessAttributes in
/-- What a block is written as is the text of the block as it is read back. -/
theorem isBlockText_render :
    IsBlockText block.readBack (block.render indent attributes settings) := by
  have read := ofLines_render readable blank plain list bracelessAttributes
  refine ⟨plain.named, ⟨1, ?_⟩, ?_, read.2, read.1, ?_⟩
  · exact isExtent_render readable blank plain.named plain.flat list bracelessAttributes
  · rw [Block.render_eq]
    refine ofLine?_of_mem_bodyLines readable blank fun entry membership written => ?_
    exact (plain.entries entry membership written).named
  · rw [Block.render_eq, List.headD_cons, attributesOf_headerLine readable blank list]
    exact bracelessAttributes

end Written

end EnumBlocks
