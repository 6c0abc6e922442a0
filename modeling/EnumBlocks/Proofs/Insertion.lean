import EnumBlocks.Proofs.Rewriting

/-!
Adding a block to any document. A document may end at any depth of nesting and with blocks that are
still open; the added block is read on top of those and leaves them as they were. So nothing but the
block is new in what is read, and it is located at the lines that were added.
-/

namespace EnumBlocks

namespace Reading

namespace FollowsWith

variable {base own reading : Reading} {added : Nat → List Entry} {outer : List Scope}
  (follows : base.FollowsWith added outer own reading)

include follows in
theorem step {line : Text} (opened : Declaration.ofLine? line = none → own.scopes ≠ [])
    (number ownNumber : Nat) :
    base.FollowsWith added outer (own.step ownNumber line) (reading.step number line) := by
  unfold Reading.step
  split
  · exact follows
  · unfold Reading.takeLine
    split
    · exact follows.declare _ _ _ _
    · rename_i plain
      apply FollowsWith.continueBody
      · refine ⟨?_, follows.declared, follows.scopes⟩
        simp only [follows.depth]
        omega
      · exact opened plain

include follows in
theorem run {lines : List Text} (plain : ∀ line ∈ lines, Declaration.ofLine? line = none)
    {ownNumber : Nat} (opened : (own.run ownNumber lines).scopes ≠ []) (number : Nat) :
    base.FollowsWith added outer (own.run ownNumber lines) (reading.run number lines) := by
  induction lines generalizing own reading number ownNumber with
  | nil => exact follows
  | cons line rest inductionHypothesis =>
      have before : own.scopes ≠ [] := by
        intro closed
        exact opened (run_of_scopes_eq_nil closed ownNumber plain)
      exact inductionHypothesis (follows.step (fun _ => before) number ownNumber)
        (fun other membership => plain other (List.mem_cons_of_mem line membership)) opened _

end FollowsWith

theorem addEntries_nil (reading : Reading) (place : Nat) :
    reading.addEntries place [] = reading := by
  have same : (fun block : Block => block.append []) = id := by
    funext block
    simp [Block.append]
  rw [addEntries, same, List.modify_id]

theorem step_nil (reading : Reading) (number : Nat) : reading.step number [] = reading := by
  have plain : Declaration.ofLine? [] = none := by decide
  have level : reading.depth + netBraces (Text.strip []) = reading.depth := Int.add_zero _
  rw [step, if_neg (by decide), takeLine, plain]
  simp only [level]
  rw [continueBody]
  split
  · rfl
  · rename_i scope outer opened
    by_cases shallow : reading.depth ≤ scope.bodyDepth
    · have kind : BodyLine.classify [] reading.depth scope.bodyDepth = .beforeBody := by
        rw [BodyLine.classify, if_pos shallow]
        rfl
      simp only [kind, BodyLine.added, addEntries_nil]
    · have kind : BodyLine.classify [] reading.depth scope.bodyDepth = .skip := by
        rw [BodyLine.classify, if_neg shallow]
        rfl
      simp only [kind, BodyLine.added, addEntries_nil]

end Reading

section Written

variable {settings : Settings} (readable : settings.Readable) {indent : Text}
  (blank : Text.isBlankText indent = true) {block : Block} (plain : block.Plain)
  {attributes : Text} (list : IsAttributeList attributes)
  (bracelessAttributes : Braceless attributes)

include readable blank plain list bracelessAttributes in
/-- A written block is read on top of whatever was read before. -/
theorem followsWith_render (base : Reading) (number : Nat) :
    base.FollowsWith (fun _ => []) base.scopes
      (Reading.ofLines (block.render indent attributes settings))
      (base.run number (block.render indent attributes settings)) := by
  have entered := isInside_openLines readable blank plain list bracelessAttributes
  have opened : (Reading.ofLines (block.openLines indent attributes settings)).scopes ≠ [] := by
    rw [entered.scopes]
    exact List.cons_ne_nil _ _
  have header := ofLine?_headerLine readable plain.named blank list
  have body := @ofLine?_of_mem_bodyLines block _ _ readable blank fun entry membership written =>
    (plain.entries entry membership written).named
  -- The header opens a scope of its own, and only the last line closes it.
  have headed := (Reading.FollowsWith.start base).step
    (fun undeclared => by rw [header] at undeclared; contradiction) number 1
  have upToEnd := headed.run (fun line membership => body line (List.mem_append_left _ membership))
    opened (number + 1)
  rw [Block.render_eq_openLines_concat, Reading.ofLines_concat, Reading.run_append, Reading.run,
    Reading.run_nil]
  exact upToEnd.step (fun _ => opened) _ _

include readable blank plain list bracelessAttributes in
/-- A block that is written behind a document, after an empty line, is all that is new in it. -/
theorem declared_append_render (lines : List Text) :
    declaredIn (lines ++ [[]] ++ block.render indent attributes settings) =
      declaredIn lines ++ [block.readBack] := by
  have onTop := followsWith_render readable blank plain list bracelessAttributes
    (Reading.ofLines lines) (1 + (lines ++ [[]]).length)
  have declared := onTop.declared
  rw [extendBlocks_of_nil fun _ => rfl,
    (ofLines_render readable blank plain list bracelessAttributes).1] at declared
  have front : Reading.ofLines (lines ++ [[]]) = Reading.ofLines lines := by
    rw [Reading.ofLines_concat, Reading.step_nil]
  rw [declaredIn, Reading.ofLines, Reading.run_append]
  rw [Reading.ofLines] at front
  rw [front]
  exact declared

end Written

/-- A block can be added to every document that does not declare it. It is located where it was
added, and is the only block that is new in what is read, and the last. -/
theorem append_located_and_read {block : Block} {lines : List Text} {settings : Settings}
    (readable : settings.Readable) (counting : settings.counting = .perCharacter)
    (plain : block.Plain) (absent : Undeclared block.name lines) :
    ∃ splice, Splice.append block lines settings = .ok splice ∧
      spanOf block.name splice.lines settings.counting = .ok splice.span ∧
      (Outline.ofLines splice.lines).blocks =
        (Outline.ofLines lines).blocks ++ [block.readBack] := by
  have blank := isBlankText_appendIndent readable lines
  refine ⟨_, append_eq absent, ?_, ?_⟩
  · have extent := isExtent_added readable counting plain.named plain.flat lines
    have located := extent.spanOf_surrounded (undeclared_concat_nil absent) []
    have last : lines.length + 1 +
        ((block.render (Splice.appendIndent lines settings) [] settings).length - 1) =
        lines.length + (block.render (Splice.appendIndent lines settings) [] settings).length := by
      rw [Block.render_eq, List.length_cons]
      omega
    rw [List.append_nil, List.length_append, List.length_singleton, last] at located
    rw [located]
  · have fresh : block.readBack.name ∉ (Outline.ofLines lines).names := by
      rw [mem_names_ofLines]
      exact (undeclared_iff plain.named).mp absent
    have declared := declared_append_render readable blank plain isAttributeList_nil braceless_nil
      lines
    unfold declaredIn at declared
    unfold Outline.ofLines at fresh ⊢
    unfold Reading.outline at fresh ⊢
    rw [declared, ofBlocks_concat, Outline.blocks_put_of_not_mem fresh]

def unfinishedLines : List Text :=
  [['}'], ['e', 'n', 'u', 'm', ' ', 'A'], ['{'], ['X', ',']]

/-- A block with an entry whose comment has a brace and a quotation mark, and one without a name. -/
def commentedBlock : Block :=
  ⟨['B'], [⟨['Y'], [' ', '1'], ['}', quotationMark, ' ']⟩, ⟨[' '], [], []⟩]⟩

theorem append_located_and_read_unfinishedLines :
    ∃ splice, Splice.append commentedBlock unfinishedLines {} = .ok splice ∧
      spanOf ['B'] splice.lines .perCharacter = .ok splice.span ∧
      (Outline.ofLines splice.lines).blocks =
        [⟨['A'], [⟨['X'], [], []⟩]⟩, ⟨['B'], [⟨['Y'], ['1'], ['}', quotationMark]⟩]⟩] := by
  obtain ⟨splice, appended, located, read⟩ := @append_located_and_read commentedBlock
    unfinishedLines {} Settings.readable_default rfl (by decide) (by decide)
  exact ⟨splice, appended, located, read.trans (by decide)⟩

end EnumBlocks
