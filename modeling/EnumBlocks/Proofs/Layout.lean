import EnumBlocks.Proofs.BlockText
import EnumBlocks.Proofs.Outline

/-!
Documents in which every block stands apart: between the texts of the blocks there are only lines
that declare nothing. Such a document is read as its blocks, in order, and each of them can be
located.
-/

namespace EnumBlocks

/-- Whether some lines consist of the texts of some blocks, in order and under distinct names, and
of lines between them that declare nothing. -/
inductive LaidOut : List Block → List Text → Prop where
  | nil : LaidOut [] []
  | line {blocks : List Block} {lines : List Text} {line : Text}
      (plain : Declaration.ofLine? line = none) (rest : LaidOut blocks lines) :
      LaidOut blocks (line :: lines)
  | block {blocks : List Block} {lines : List Text} {block : Block} {body : List Text}
      (text : IsBlockText block body) (fresh : block.name ∉ blocks.map Block.name)
      (rest : LaidOut blocks lines) :
      LaidOut (block :: blocks) (body ++ lines)

theorem settled_of_plain {line : Text} (plain : Declaration.ofLine? line = none) :
    Settled [line] :=
  Reading.run_of_scopes_eq_nil rfl 1 (by simpa using plain)

theorem declaredIn_of_plain {line : Text} (plain : Declaration.ofLine? line = none) :
    declaredIn [line] = [] := by
  have names := names_declaredIn [line]
  simpa [declaredNames, plain] using names

theorem undeclared_iff {name : Text} (named : IsName name) {lines : List Text} :
    Undeclared name lines ↔ name ∉ declaredNames lines := by
  unfold Undeclared declaredNames
  constructor
  · intro absent membership
    obtain ⟨declaration, present, rfl⟩ := List.mem_map.mp membership
    obtain ⟨line, lineMembership, read⟩ := List.mem_filterMap.mp present
    have declared := declares_ofLine? read
    rw [absent line lineMembership] at declared
    contradiction
  · intro absent line membership
    rw [Bool.eq_false_iff]
    intro declared
    obtain ⟨declaration, read, same⟩ := (declares_iff named line).mp declared
    have found := List.mem_filterMap.mpr ⟨line, membership, read⟩
    exact absent (List.mem_map.mpr ⟨declaration, found, same⟩)

theorem IsBlockText.undeclared {block : Block} {body : List Text} (text : IsBlockText block body)
    {name : Text} (named : IsName name) (different : name ≠ block.name) : Undeclared name body := by
  rw [undeclared_iff named, ← names_declaredIn, text.declared]
  simpa using different

theorem mem_names_ofLines {name : Text} {lines : List Text} :
    name ∈ (Outline.ofLines lines).names ↔ name ∈ declaredNames lines := by
  rw [Outline.ofLines, Reading.outline, mem_names_ofBlocks]
  exact Iff.of_eq (congrArg (name ∈ ·) (names_declaredIn lines))

theorem isName_of_mem_declaredNames {name : Text} {lines : List Text}
    (declared : name ∈ declaredNames lines) : IsName name := by
  obtain ⟨declaration, membership, rfl⟩ := List.mem_map.mp declared
  obtain ⟨line, -, read⟩ := List.mem_filterMap.mp membership
  exact isName_of_ofLine? read

namespace LaidOut

variable {blocks : List Block} {lines : List Text}

theorem distinct (laidOut : LaidOut blocks lines) : (blocks.map Block.name).Nodup := by
  induction laidOut with
  | nil => simp
  | line plain rest inductionHypothesis => exact inductionHypothesis
  | block text fresh rest inductionHypothesis =>
      exact List.nodup_cons.mpr ⟨fresh, inductionHypothesis⟩

theorem named (laidOut : LaidOut blocks lines) : ∀ block ∈ blocks, IsName block.name := by
  induction laidOut with
  | nil => simp
  | line plain rest inductionHypothesis => exact inductionHypothesis
  | block text fresh rest inductionHypothesis =>
      exact List.forall_mem_cons.mpr ⟨text.named, inductionHypothesis⟩

theorem settled (laidOut : LaidOut blocks lines) : Settled lines := by
  induction laidOut with
  | nil => rfl
  | line plain rest inductionHypothesis =>
      exact settled_append (settled_of_plain plain) inductionHypothesis
  | block text fresh rest inductionHypothesis =>
      exact settled_append text.settled inductionHypothesis

theorem declaredIn_eq (laidOut : LaidOut blocks lines) : declaredIn lines = blocks := by
  induction laidOut with
  | nil => rfl
  | @line blocks lines line plain rest inductionHypothesis =>
      have first := declaredIn_append (settled_of_plain plain) lines
      rw [declaredIn_of_plain plain, inductionHypothesis] at first
      exact first
  | block text fresh rest inductionHypothesis =>
      rw [declaredIn_append text.settled, text.declared, inductionHypothesis]
      rfl

theorem blocks_ofLines (laidOut : LaidOut blocks lines) :
    (Outline.ofLines lines).blocks = blocks := by
  have declared := laidOut.declaredIn_eq
  unfold declaredIn at declared
  rw [Outline.ofLines, Reading.outline, declared, blocks_ofBlocks laidOut.distinct]

theorem declaredNames_eq (laidOut : LaidOut blocks lines) :
    declaredNames lines = blocks.map Block.name := by
  rw [← names_declaredIn, laidOut.declaredIn_eq]

theorem undeclared (laidOut : LaidOut blocks lines) {name : Text} (named : IsName name)
    (absent : name ∉ blocks.map Block.name) : Undeclared name lines := by
  rw [undeclared_iff named, laidOut.declaredNames_eq]
  exact absent

theorem ofPlain (plain : ∀ line ∈ lines, Declaration.ofLine? line = none) : LaidOut [] lines := by
  induction lines with
  | nil => exact .nil
  | cons line rest inductionHypothesis =>
      exact .line (plain line (by simp))
        (inductionHypothesis fun other membership => plain other (by simp [membership]))

theorem append {others : List Block} {more : List Text} (laidOut : LaidOut blocks lines)
    (otherLaidOut : LaidOut others more)
    (apart : ∀ block ∈ blocks, block.name ∉ others.map Block.name) :
    LaidOut (blocks ++ others) (lines ++ more) := by
  induction laidOut with
  | nil => exact otherLaidOut
  | line plain rest inductionHypothesis => exact .line plain (inductionHypothesis apart)
  | @block blocks lines block body text fresh rest inductionHypothesis =>
      rw [List.append_assoc, List.cons_append]
      rw [List.forall_mem_cons] at apart
      refine .block text ?_ (inductionHypothesis apart.2)
      rw [List.map_append, List.mem_append]
      rintro (earlier | later)
      · exact fresh earlier
      · exact apart.1 later

/-- The text of a block, and the documents before and after it. -/
theorem exists_split (laidOut : LaidOut blocks lines) {before after : List Block} {block : Block}
    (place : blocks = before ++ block :: after) :
    ∃ front body back, lines = front ++ (body ++ back) ∧ LaidOut before front ∧
      IsBlockText block body ∧ LaidOut after back := by
  induction laidOut generalizing before with
  | nil => simp at place
  | @line blocks lines line plain rest inductionHypothesis =>
      obtain ⟨front, body, back, rfl, first, text, last⟩ := inductionHypothesis place
      exact ⟨line :: front, body, back, rfl, .line plain first, text, last⟩
  | @block blocks lines own ownBody ownText fresh rest inductionHypothesis =>
      cases before with
      | nil =>
          rw [List.nil_append, List.cons.injEq] at place
          rcases place with ⟨rfl, rfl⟩
          exact ⟨[], ownBody, lines, rfl, .nil, ownText, rest⟩
      | cons first others =>
          rw [List.cons_append, List.cons.injEq] at place
          rcases place with ⟨rfl, rfl⟩
          obtain ⟨front, body, back, rfl, laidOut, text, last⟩ := inductionHypothesis rfl
          refine ⟨ownBody ++ front, body, back, by rw [List.append_assoc], ?_, text, last⟩
          refine .block ownText ?_ laidOut
          intro earlier
          exact fresh (by rw [List.map_append]; exact List.mem_append_left _ earlier)

end LaidOut

end EnumBlocks
