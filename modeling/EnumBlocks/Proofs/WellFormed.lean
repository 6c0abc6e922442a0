import EnumBlocks.Proofs.Layout
import EnumBlocks.Proofs.OneLine
import Mathlib.Algebra.Ring.Int.Defs

/-!
Documents in which every block can be told from the others: it is declared once, it is located, and
its braces are where both the locator and the reader look for them. Such a document consists of the
texts of its blocks and of lines between them that declare nothing.
-/

namespace EnumBlocks

/-- Whether a block is located and stands apart from every other. -/
structure IsIsolated (name : Text) (lines : List Text) (span : Span) : Prop where
  located : spanOf name lines .perCharacter = .ok span
  /-- Only the first of its lines is a declaration. -/
  alone : ∀ line ∈ (span.extract lines).tail, Declaration.ofLine? line = none
  bracelessAttributes : Braceless (attributesOf ((span.extract lines).headD []))
  /-- No brace is closed before the line where the first one opens. -/
  unclosed : ∀ line ∈ (span.extract lines).take (span.opening - span.head), '}' ∉ codeOf line
  balanced : ((span.extract lines).map netBraces).sum = 0
  bracelessDirectives :
    ∀ line ∈ span.extract lines, isDirective (Text.strip line) = true → Braceless line

/-- Whether every name that is read from some lines is declared there once, by an isolated block. -/
structure WellFormed (lines : List Text) : Prop where
  oneLine : ∀ line ∈ lines, IsOneLine line
  once : ∀ name ∈ (Outline.ofLines lines).names, lines.countP (declares name) = 1
  isolated : ∀ name ∈ (Outline.ofLines lines).names, ∃ span, IsIsolated name lines span

theorem IsIsolated.of_append_left {name : Text} {before lines : List Text} {span : Span}
    (isolated : IsIsolated name (before ++ lines) span) (absent : Undeclared name before) :
    ∃ own, IsIsolated name lines own := by
  obtain ⟨own, located, rfl⟩ := (spanOf_append_left absent _ _).mp isolated.located
  have same : (own.shift before.length).extract (before ++ lines) = own.extract lines :=
    extract_shift own rfl lines
  have offset : (own.shift before.length).opening - (own.shift before.length).head =
      own.opening - own.head := by
    simp only [Span.shift]
    omega
  have alone := isolated.alone
  have bracelessAttributes := isolated.bracelessAttributes
  have unclosed := isolated.unclosed
  have balanced := isolated.balanced
  have bracelessDirectives := isolated.bracelessDirectives
  rw [same] at alone bracelessAttributes unclosed balanced bracelessDirectives
  rw [offset] at unclosed
  exact ⟨own, located, alone, bracelessAttributes, unclosed, balanced, bracelessDirectives⟩

theorem IsIsolated.isBlockText {name : Text} {lines : List Text} {span : Span}
    (isolated : IsIsolated name lines span) (named : IsName name) :
    ∃ block, block.name = name ∧ IsBlockText block (span.extract lines) := by
  have extent := isExtent_extract isolated.located
  rcases extent.exists_header with ⟨header, rest, shape, declared⟩
  obtain ⟨declaration, read, same⟩ := (declares_iff named header).mp declared
  have alone := isolated.alone
  have names := names_declaredIn (span.extract lines)
  have plain : rest.filterMap Declaration.ofLine? = [] := by
    rw [shape, List.tail_cons] at alone
    exact List.filterMap_eq_nil_iff.mpr alone
  have single : declaredNames (span.extract lines) = [name] := by
    rw [shape, declaredNames, List.filterMap_cons_some read, plain, ← same]
    rfl
  rw [single] at names
  obtain ⟨block, found, blockName⟩ := List.map_eq_singleton_iff.mp names
  subst blockName
  refine ⟨block, rfl, named, ⟨_, extent⟩, alone, ?_, found, isolated.bracelessAttributes⟩
  exact settled_of_isExtent extent named alone fun line membership directive =>
    braceless_codeOf (isolated.bracelessDirectives line membership directive)

def EachIsolated (lines : List Text) : Prop :=
  ∀ name ∈ declaredNames lines,
    lines.countP (declares name) = 1 ∧ ∃ span, IsIsolated name lines span

theorem EachIsolated.undeclared_before {before after : List Text}
    (each : EachIsolated (before ++ after)) {name : Text} (declared : name ∈ declaredNames after) :
    Undeclared name before := by
  have named := isName_of_mem_declaredNames declared
  have count := (each name (by rw [declaredNames_append]; exact List.mem_append_right _ declared)).1
  have positive : after.countP (declares name) ≠ 0 := by
    intro none
    exact (undeclared_iff named).mp (countP_declares_eq_zero_iff.mp none) declared
  rw [List.countP_append] at count
  rw [← countP_declares_eq_zero_iff]
  omega

theorem EachIsolated.of_append {before after : List Text} (each : EachIsolated (before ++ after)) :
    EachIsolated after := by
  intro name declared
  have absent := each.undeclared_before declared
  obtain ⟨count, span, isolated⟩ :=
    each name (by rw [declaredNames_append]; exact List.mem_append_right _ declared)
  rw [List.countP_append, countP_declares_eq_zero_iff.mpr absent, Nat.zero_add] at count
  obtain ⟨own, ownIsolated⟩ := isolated.of_append_left absent
  exact ⟨count, own, ownIsolated⟩

theorem EachIsolated.exists_laidOut {lines : List Text} (each : EachIsolated lines) :
    ∃ blocks, LaidOut blocks lines := by
  -- On the number of lines, since a block takes as many of them as it covers.
  induction total : lines.length using Nat.strong_induction_on generalizing lines with
  | _ size inductionHypothesis =>
      cases lines with
      | nil => exact ⟨[], .nil⟩
      | cons line rest =>
          rw [List.length_cons] at total
          cases read : Declaration.ofLine? line with
          | none =>
              rw [← List.singleton_append] at each
              obtain ⟨blocks, laidOut⟩ :=
                inductionHypothesis rest.length (by omega) each.of_append rfl
              exact ⟨blocks, .line read laidOut⟩
          | some declaration =>
              have declared : declaration.name ∈ declaredNames (line :: rest) := by
                rw [declaredNames, List.filterMap_cons_some read]
                exact List.mem_cons_self
              have named := isName_of_ofLine? read
              have declares := declares_ofLine? read
              obtain ⟨span, isolated⟩ := (each _ declared).2
              have first : span.head = 0 := by
                have headed := (spanOf_eq_ok_iff.mp isolated.located).1
                rw [headLine?, List.findIdx?_cons, declares] at headed
                exact (Option.some.inj headed).symm
              have whole := take_append_extract_append_drop isolated.located
              rw [first, List.take_zero, List.nil_append] at whole
              rw [whole] at each
              have shorter : ((line :: rest).drop (span.closing + 1)).length < size := by
                rw [List.length_drop, List.length_cons]
                omega
              obtain ⟨blocks, laidOut⟩ := inductionHypothesis _ shorter each.of_append rfl
              obtain ⟨block, same, text⟩ := isolated.isBlockText named
              rw [whole]
              refine ⟨block :: blocks, .block text ?_ laidOut⟩
              rw [← laidOut.declaredNames_eq]
              intro again
              have absent := each.undeclared_before again
              rcases text.extent with ⟨opening, extent⟩
              rcases extent.exists_header with ⟨header, others, shape, headerDeclares⟩
              have contrary := absent header (by rw [shape]; exact List.mem_cons_self)
              rw [headerDeclares] at contrary
              contradiction

/-- A well-formed document consists of its blocks and of lines that declare nothing. -/
theorem WellFormed.laidOut {lines : List Text} (wellFormed : WellFormed lines) :
    LaidOut (Outline.ofLines lines).blocks lines := by
  have each : EachIsolated lines := fun name declared =>
    ⟨wellFormed.once name (mem_names_ofLines.mpr declared),
      wellFormed.isolated name (mem_names_ofLines.mpr declared)⟩
  rcases each.exists_laidOut with ⟨blocks, laidOut⟩
  rw [laidOut.blocks_ofLines]
  exact laidOut

end EnumBlocks
