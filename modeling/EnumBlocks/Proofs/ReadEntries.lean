import EnumBlocks.Proofs.Entry
import EnumBlocks.Proofs.Outline
import EnumBlocks.Proofs.Reading

/-!
The entries that are found in a document. Each is read from a part of one of its lines, so that it
has a name, and its value and its comment are trimmed: it is written and read back as it is.
-/

namespace EnumBlocks

def Entry.IsRead (entry : Entry) : Prop :=
  IsName entry.name ∧ entry.trimmed = entry

def Entry.IsReadFrom (entry : Entry) (text : Text) : Prop :=
  ∃ part, part ⊆ text ∧ Entry.parse? part = some entry

namespace Entry.IsReadFrom

variable {entry : Entry} {text : Text} (readFrom : entry.IsReadFrom text)

include readFrom in
theorem isRead : entry.IsRead := by
  obtain ⟨part, -, read⟩ := readFrom
  exact parse?_eq_some read

include readFrom in
theorem mono {whole : Text} (within : text ⊆ whole) : entry.IsReadFrom whole := by
  obtain ⟨part, own, read⟩ := readFrom
  exact ⟨part, List.Subset.trans own within, read⟩

end Entry.IsReadFrom

section Parts

variable (text : Text) {mark : Char} {piece : Text}

theorem subset_of_mem_pieces (membership : piece ∈ Text.pieces mark text) : piece ⊆ text := by
  induction text generalizing piece with
  | nil =>
      obtain rfl := List.mem_singleton.mp membership
      exact List.Subset.refl _
  | cons c rest inductionHypothesis =>
      rw [Text.pieces] at membership
      split at membership
      · rcases List.mem_cons.mp membership with rfl | later
        · exact List.nil_subset _
        · exact List.subset_cons_of_subset c (inductionHypothesis later)
      · cases found : Text.pieces mark rest with
        | nil => exact absurd found (Text.pieces_ne_nil mark rest)
        | cons first others =>
            rw [found] at inductionHypothesis membership
            rcases List.mem_cons.mp membership with rfl | later
            · exact List.cons_subset_cons c (inductionHypothesis List.mem_cons_self)
            · exact List.subset_cons_of_subset c
                (inductionHypothesis (List.mem_cons_of_mem first later))

theorem subset_of_mem_listPieces (membership : piece ∈ listPieces text) : piece ⊆ text := by
  obtain ⟨own, found, rfl⟩ := List.mem_map.mp (List.mem_filter.mp membership).1
  exact List.Subset.trans (Text.strip_infix own).subset (subset_of_mem_pieces text found)

theorem beforeFirst_subset (mark : Char) : Text.beforeFirst mark text ⊆ text :=
  List.takeWhile_subset _

theorem beforeLast_subset (mark : Char) : Text.beforeLast mark text ⊆ text := by
  unfold Text.beforeLast
  split
  · intro c membership
    rw [List.mem_reverse] at membership
    exact List.mem_reverse.mp ((List.dropWhile_suffix _).subset (List.mem_of_mem_drop membership))
  · exact List.Subset.refl _

theorem afterFirst_subset (mark : Char) : Text.afterFirst mark text ⊆ text :=
  List.Subset.trans (List.drop_subset 1 _) (List.dropWhile_suffix _).subset

theorem inlineBody_subset (line : Text) (closed : Bool) : inlineBody line closed ⊆ line := by
  have body : Text.afterFirst '{' (codeOf line) ⊆ line :=
    List.Subset.trans (afterFirst_subset _ '{') (codeOf_isPrefix line).subset
  unfold inlineBody
  simp only
  split
  · exact List.Subset.trans (beforeLast_subset _ '}') body
  · exact body

end Parts

theorem exists_of_mem_mapM {α β : Type} {read : α → Option β} {pieces : List α} {found : List β}
    (all : pieces.mapM read = some found) :
    ∀ result ∈ found, ∃ piece ∈ pieces, read piece = some result := by
  induction pieces generalizing found with
  | nil =>
      cases all
      simp
  | cons piece rest inductionHypothesis =>
      rw [List.mapM_cons] at all
      obtain ⟨first, firstRead, remaining⟩ := Option.bind_eq_some_iff.mp all
      obtain ⟨others, othersRead, equality⟩ := Option.bind_eq_some_iff.mp remaining
      cases equality
      refine List.forall_mem_cons.mpr ⟨⟨piece, List.mem_cons_self, firstRead⟩, ?_⟩
      intro result membership
      obtain ⟨own, present, read⟩ := inductionHypothesis othersRead result membership
      exact ⟨own, List.mem_cons_of_mem piece present, read⟩

theorem isReadFrom_of_mem_lineEntries {text : Text} :
    ∀ entry ∈ lineEntries text, entry.IsReadFrom text := by
  intro entry membership
  unfold lineEntries at membership
  split at membership
  · rename_i found read
    obtain rfl := List.mem_singleton.mp membership
    exact ⟨text, List.Subset.refl text, read⟩
  · split at membership
    · cases all : (listPieces (codeOf text)).mapM Entry.parse? with
      | none => simp [all] at membership
      | some found =>
          rw [all] at membership
          obtain ⟨piece, present, read⟩ := exists_of_mem_mapM all entry membership
          exact ⟨piece, List.Subset.trans (subset_of_mem_listPieces _ present)
            (codeOf_isPrefix text).subset, read⟩
    · contradiction

theorem isReadFrom_of_mem_inlineEntries {body : Text} :
    ∀ entry ∈ (inlineEntries body).1, entry.IsReadFrom body := by
  intro entry membership
  obtain ⟨piece, present, read⟩ := List.mem_filterMap.mp membership
  exact ⟨piece, subset_of_mem_listPieces body present, read⟩

theorem isReadFrom_of_mem_added {line : Text} {depth bodyDepth : Int} :
    ∀ entry ∈ (BodyLine.classify line depth bodyDepth).added, entry.IsReadFrom line := by
  have stripped : Text.strip line ⊆ line := (Text.strip_infix line).subset
  intro entry membership
  unfold BodyLine.classify at membership
  simp only at membership
  split at membership
  · split at membership
    · simp only [BodyLine.added] at membership
      split at membership
      · contradiction
      · refine (isReadFrom_of_mem_lineEntries entry membership).mono ?_
        calc Text.strip (Text.beforeFirst '}' (codeOf (Text.strip line)))
            ⊆ Text.beforeFirst '}' (codeOf (Text.strip line)) := (Text.strip_infix _).subset
          _ ⊆ codeOf (Text.strip line) := beforeFirst_subset _ '}'
          _ ⊆ Text.strip line := (codeOf_isPrefix _).subset
          _ ⊆ line := stripped
    · contradiction
  · split at membership
    · contradiction
    · split at membership
      · contradiction
      · rename_i found _
        exact (isReadFrom_of_mem_lineEntries entry membership).mono stripped

namespace Reading

/-- Whether every entry found so far was read from one of some lines. -/
def AllRead (reading : Reading) (lines : List Text) : Prop :=
  ∀ block ∈ reading.declared, ∀ entry ∈ block.entries, ∃ line ∈ lines, entry.IsReadFrom line

variable {reading : Reading} {lines : List Text}

theorem allRead_modify_append {blocks : List Block} {holds : Entry → Prop}
    (known : ∀ block ∈ blocks, ∀ entry ∈ block.entries, holds entry) {added : List Entry}
    (new : ∀ entry ∈ added, holds entry) (place : Nat) :
    ∀ block ∈ blocks.modify place (·.append added), ∀ entry ∈ block.entries, holds entry := by
  induction blocks generalizing place with
  | nil => simp
  | cons block rest inductionHypothesis =>
      rw [List.forall_mem_cons] at known
      cases place with
      | zero =>
          rw [List.modify_zero_cons, List.forall_mem_cons]
          exact ⟨List.forall_mem_append.mpr ⟨known.1, new⟩, known.2⟩
      | succ place =>
          rw [List.modify_succ_cons, List.forall_mem_cons]
          exact ⟨known.1, inductionHypothesis known.2 place⟩

theorem AllRead.declare (allRead : reading.AllRead lines) {line : Text} (present : line ∈ lines)
    (number : Nat) (name : Text) :
    (reading.declare number (Text.strip line) name).AllRead lines := by
  intro block membership
  simp only [Reading.declare, List.mem_append, List.mem_singleton] at membership
  rcases membership with old | rfl
  · exact allRead block old
  · intro entry found
    split at found
    · refine ⟨line, present, (isReadFrom_of_mem_inlineEntries entry found).mono ?_⟩
      exact List.Subset.trans (inlineBody_subset _ _) (Text.strip_infix line).subset
    · contradiction

theorem AllRead.continueBody (allRead : reading.AllRead lines) {line : Text}
    (present : line ∈ lines) (number : Nat) : (reading.continueBody number line).AllRead lines := by
  cases opened : reading.scopes with
  | nil =>
      rw [continueBody_of_scopes_eq_nil reading number line opened]
      exact allRead
  | cons scope outer =>
      unfold AllRead
      rw [(continueBody_of_scopes_eq_cons number line opened).2.1]
      exact allRead_modify_append allRead
        (fun entry membership => ⟨line, present, isReadFrom_of_mem_added entry membership⟩)
        scope.place

theorem AllRead.step (allRead : reading.AllRead lines) {line : Text} (present : line ∈ lines)
    (number : Nat) : (reading.step number line).AllRead lines := by
  unfold Reading.step
  split
  · exact allRead
  · unfold takeLine
    split
    · exact allRead.declare present number _
    · refine AllRead.continueBody ?_ present number
      exact allRead

theorem AllRead.run (allRead : reading.AllRead lines) (number : Nat) {some : List Text}
    (within : some ⊆ lines) : (reading.run number some).AllRead lines := by
  induction some generalizing reading number with
  | nil => exact allRead
  | cons line rest inductionHypothesis =>
      rw [List.cons_subset] at within
      exact inductionHypothesis (allRead.step within.1 number) _ within.2

end Reading

variable {lines : List Text} {block : Block}

theorem isReadFrom_of_mem_declaredIn (declared : block ∈ declaredIn lines) :
    ∀ entry ∈ block.entries, ∃ line ∈ lines, entry.IsReadFrom line := by
  have start : Reading.AllRead {} lines := by
    intro other membership
    contradiction
  exact start.run 1 (List.Subset.refl lines) block declared

/-- Every entry of a document is read from one of its lines. -/
theorem isReadFrom_of_mem_ofLines (present : block ∈ (Outline.ofLines lines).blocks) :
    ∀ entry ∈ block.entries, ∃ line ∈ lines, entry.IsReadFrom line :=
  isReadFrom_of_mem_declaredIn (mem_of_mem_blocks_ofBlocks present)

theorem isRead_of_mem_ofLines (present : block ∈ (Outline.ofLines lines).blocks) :
    ∀ entry ∈ block.entries, entry.IsRead := by
  intro entry membership
  obtain ⟨line, -, readFrom⟩ := isReadFrom_of_mem_ofLines present entry membership
  exact readFrom.isRead

end EnumBlocks
