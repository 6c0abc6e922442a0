import EnumBlocks.Proofs.Normalization
import EnumBlocks.Proofs.Rewriting
import EnumBlocks.Proofs.StoredFile

/-!
Adding a block and removing it again. The block is written behind an empty line at the end of its
file; there it is located when it is to be removed, and the empty line goes with it. What is left is
the file as it was, if its breaks are all of one kind.
-/

namespace EnumBlocks

section Lines

variable {block : Block} {lines : List Text} {settings : Settings} (readable : settings.Readable)
  (counting : settings.counting = .perCharacter) (named : IsName block.name)
  (contained : ∀ entry ∈ block.entries, entry.isWritten = true → entry.Contained)
  (absent : Undeclared block.name lines)

include contained in
theorem flat_of_contained : ∀ entry ∈ block.entries, entry.isWritten = true → entry.Flat :=
  fun entry present written => (contained entry present written).flat

include readable counting named contained in
theorem getLast?_added :
    (block.render (Splice.appendIndent lines settings) [] settings).getLast? ≠ some [] := by
  have extent := isExtent_added readable counting named (flat_of_contained contained) lines
  obtain ⟨last, found, mark⟩ := extent.not_isBlankText_getLast
  rw [found]
  intro same
  rw [Option.some.inj same] at mark
  contradiction

include readable named contained in
theorem isOneLine_added (unit : IsOneLine settings.indentUnit)
    (eachOneLine : ∀ line ∈ lines, IsOneLine line) :
    ∀ line ∈ block.render (Splice.appendIndent lines settings) [] settings, IsOneLine line :=
  isOneLine_render (isOneLine_appendIndent unit eachOneLine) readable unit named contained (by decide)

include readable counting named contained absent in
/-- Where a block was added, removing it leaves the lines that were there. -/
theorem remove_added :
    ∃ span, Splice.remove block.name (lines ++ block.addedLines lines settings) settings =
      .ok ⟨lines, span⟩ := by
  have front := undeclared_concat_nil absent
  have extent := isExtent_added readable counting named (flat_of_contained contained) lines
  have removed := remove_surrounded extent front []
  have blankEnd : Splice.dropBlankEnd (lines ++ [[]]) = lines := by
    rw [dropBlankEnd_append lines (List.cons_ne_nil _ _)]
    exact List.append_nil lines
  rw [blankEnd, List.append_nil, List.append_nil, List.append_assoc] at removed
  exact ⟨_, removed⟩

end Lines

namespace Document

def adding (document : Document) (block : Block) : Document :=
  { document with
    outline := document.outline.put block
    pending := { document.pending with created := document.pending.created.insert block.name } }

def removing (document : Document) (name : Text) : Document :=
  { document with
    outline := document.outline.erase name
    pending := { document.pending with deleted := document.pending.deleted.insert name } }

variable (document : Document) {lines : List Text} {block : Block} {name : Text}

theorem create_withLines (identifier : isIdentifier name = true)
    (fresh : name ∉ (Outline.ofLines lines).names) :
    (document.withLines lines).create name =
      .ok (⟨name, [defaultEntry]⟩, (document.withLines lines).adding ⟨name, [defaultEntry]⟩) := by
  have free : (document.withLines lines).outline.contains name = false := decide_eq_false fresh
  rw [create, if_neg (by simp [identifier]), free]
  rfl

theorem replaceEntries_adding (entries : List Entry) :
    (document.adding block).replaceEntries block.name entries =
      .ok (document.adding ⟨block.name, entries⟩) := by
  have once : (document.adding block).outline.put ⟨block.name, entries⟩ =
      document.outline.put ⟨block.name, entries⟩ := Outline.put_put rfl
  rw [replaceEntries_eq (Outline.mem_names_put.mpr (.inr rfl)), once]
  rfl

theorem remove_withLines (present : name ∈ (Outline.ofLines lines).names) :
    (document.withLines lines).remove name = .ok ((document.withLines lines).removing name) := by
  have loaded : (document.withLines lines).outline.contains name = true := decide_eq_true present
  rw [remove, loaded]
  rfl

variable (saves : document.settings.savesUnchanged = false)

include saves in
theorem lines_commitTo_adding (absent : Undeclared block.name lines) :
    (((document.withLines lines).adding block).commitTo lines).lines =
      lines ++ block.addedLines lines document.settings := by
  let edited := (document.withLines lines).adding block
  have based : edited.baseline = some (Outline.ofLines lines) := baseline_eq saves
  have updates : blocksToUpdate edited.outline edited.pending edited.baseline = [] := by
    rw [based]
    apply blocksToUpdate_eq_nil
    intro other membership old
    rcases Outline.mem_blocks_put.mp membership with rfl | ⟨present, -⟩
    · simp [edited, adding] at old
    · exact Outline.find?_eq_some_iff.mpr ⟨present, rfl⟩
  have insertions : blocksToInsert edited.outline edited.pending = [block] := by
    apply eq_singleton_of_mem_iff (edited.outline.distinct_filter _)
    intro other
    simp only [edited, adding, withLines, List.mem_filter, Outline.mem_blocks_put,
      NameSet.mem_insert, NameSet.not_mem_empty, or_false, not_false_eq_true, decide_true,
      Bool.and_true, decide_eq_true_eq]
    constructor
    · rintro ⟨same | ⟨-, different⟩, named⟩
      · exact same
      · contradiction
    · rintro rfl
      exact ⟨.inl rfl, rfl⟩
  have whole : edited.commitTo lines =
      Commit.insert document.settings (Commit.start lines) block := by
    rw [commitTo, commit, updates, insertions]
    rfl
  have appended := @append_eq block lines document.settings absent
  rw [whole, Commit.insert]
  simp only [Commit.start, appended]
  rw [List.append_assoc]
  rfl

include saves in
theorem lines_commitTo_removing {splice : Splice}
    (removed : Splice.remove name lines document.settings = .ok splice) :
    (((document.withLines lines).removing name).commitTo lines).lines = splice.lines := by
  let edited := (document.withLines lines).removing name
  have based : edited.baseline = some (Outline.ofLines lines) := baseline_eq saves
  have updates : blocksToUpdate edited.outline edited.pending edited.baseline = [] := by
    rw [based]
    apply blocksToUpdate_eq_nil
    intro other membership _
    exact Outline.find?_eq_some_iff.mpr ⟨(List.mem_filter.mp membership).1, rfl⟩
  have insertions : blocksToInsert edited.outline edited.pending = [] := by
    simp [blocksToInsert, edited, removing, withLines]
  have whole : edited.commitTo lines =
      Commit.delete document.settings (Commit.start lines) name := by
    rw [commitTo, commit, updates, insertions]
    rfl
  rw [whole, Commit.delete]
  simp only [Commit.start, removed]

end Document

namespace TextFile

/-- A file to which lines were added, the first of them empty, is read as it was written. -/
theorem ofBytes_append {text : Text} {marked : Bool}
    (apart : marked = true ∨ text.head? ≠ some markCharacter) {rest : List Text}
    (oneLine : ∀ line ∈ rest, IsOneLine line) (nonempty : rest ≠ [])
    (last : rest.getLast? ≠ some []) :
    let extended := { ofText text marked with lines := Text.fileLines text ++ [] :: rest }
    ofBytes extended.toBytes = .ok extended := by
  intro extended
  obtain ⟨isBreak, oldOneLine, -, oldApart⟩ := separable_ofText apart
  apply Separable.ofBytes_toBytes
  · refine ⟨isBreak, ?_, .inr ?_, oldApart.imp_right fun begins => ?_⟩
    · exact List.forall_mem_append.mpr
        ⟨oldOneLine, List.forall_mem_cons.mpr ⟨by decide, oneLine⟩⟩
    · rw [List.getLast?_append_of_ne_nil _ (List.cons_ne_nil [] rest),
        ← List.singleton_append, List.getLast?_append_of_ne_nil [[]] nonempty]
      exact last
    · simp only [extended]
      cases own : Text.fileLines text with
      | nil => simp
      | cons line others =>
          simp only [ofText, own] at begins
          exact begins
  · have more := List.length_pos_of_ne_nil nonempty
    simp only [extended, List.length_append, List.length_cons]
    omega

end TextFile

theorem mem_names_of_remove {name : Text} (named : IsName name) {lines : List Text}
    {settings : Settings} {splice : Splice}
    (removed : Splice.remove name lines settings = .ok splice) :
    name ∈ (Outline.ofLines lines).names := by
  by_contra absent
  rw [mem_names_ofLines, ← undeclared_iff named] at absent
  rw [Splice.remove, spanOf_of_undeclared absent] at removed
  contradiction

namespace Session

variable {session : Session} {document : Document} {location : Location} {content : Bytes}
  {file : TextFile} {block : Block} (saves : document.settings.savesUnchanged = false)
  (isAt : session.IsAt (document.withLines file.lines) location content)
  (read : TextFile.ofBytes content = .ok file)

include saves isAt read in
theorem IsAt.addBlock (identifier : isIdentifier block.name = true)
    (fresh : block.name ∉ (Outline.ofLines file.lines).names)
    (absent : Undeclared block.name file.lines) {extended : TextFile}
    (shape : extended =
      { file with lines := file.lines ++ block.addedLines file.lines document.settings })
    (readAgain : TextFile.ofBytes extended.toBytes = .ok extended) :
    (((session.ask (.create block.name)).ask
        (.replaceEntries block.name block.entries)).ask .save).IsAt
      (document.withLines extended.lines) location extended.toBytes := by
  have creating := isAt.create (document.create_withLines identifier fresh)
  have replacing := creating.replaceEntries
    ((document.withLines file.lines).replaceEntries_adding block.entries)
  obtain ⟨reloaded, saved, saving⟩ := replacing.save read
  have longer : file.lines ++ block.addedLines file.lines document.settings ≠ file.lines := by
    simp [Block.addedLines]
  rw [Document.savedBytes_eq, document.lines_commitTo_adding saves absent, if_neg longer,
    ← shape] at saved saving
  cases readAgain.symm.trans saved
  exact saving

include saves isAt read in
theorem IsAt.removeBlock {name : Text} (named : IsName name) {splice : Splice}
    (removed : Splice.remove name file.lines document.settings = .ok splice)
    (shorter : splice.lines ≠ file.lines) :
    ∃ lines, ((session.ask (.remove name)).ask .save).IsAt (document.withLines lines) location
      { file with lines := splice.lines }.toBytes := by
  have removing := isAt.remove (document.remove_withLines (mem_names_of_remove named removed))
  obtain ⟨reloaded, -, saving⟩ := removing.save read
  rw [Document.savedBytes_eq, document.lines_commitTo_removing saves removed,
    if_neg shorter] at saving
  exact ⟨_, saving⟩

/-- Adding a block to a file and saving puts it there, and removing it again and saving leaves the
file as it was, if all its breaks are of one kind. -/
theorem restored_run_create_remove {world : World} {path : Path} {location : Location}
    {content : Bytes} {file : TextFile} {text kind name : Text} {settings : Settings}
    {entries : List Entry} (stores : world.Stores path location content)
    (read : TextFile.ofBytes content = .ok file) (bytes : content = markedBytes file.marked text)
    (uniform : ∀ ending ∈ breaksOf text, ending = kind)
    (saves : settings.savesUnchanged = false) (counting : settings.counting = .perCharacter)
    (readable : settings.Readable) (unit : IsOneLine settings.indentUnit)
    (identifier : isIdentifier name = true) (oneLine : '\n' ∉ name)
    (fresh : name ∉ (Outline.ofLines file.lines).names)
    (contained : ∀ entry ∈ entries, entry.isWritten = true → entry.Contained) :
    let added := (opened path settings world).run
      [.request .load, .request (.create name), .request (.replaceEntries name entries),
        .request .save]
    let final := added.run [.request (.remove name), .request .save]
    (∃ between, added.world.Stores path location (TextFile.toBytes between) ∧
      TextFile.ofBytes between.toBytes = .ok between ∧
      name ∈ (Outline.ofLines between.lines).names) ∧
    final.failures = [] ∧ final.world.Stores path location content := by
  obtain ⟨own, shape, ownBytes, apart⟩ := TextFile.ofBytes_eq_ok read
  obtain rfl := markedBytes_inj.mp (bytes.symm.trans ownBytes)
  have lines : file.lines = Text.fileLines text := congrArg TextFile.lines shape
  have eachOneLine : ∀ line ∈ file.lines, IsOneLine line := fun line membership =>
    isOneLine_of_mem_fileLines (lines ▸ membership)
  have restored : file.toText = text := by
    rw [shape, toText_ofText, rebreak_detectBreak uniform]
  let block : Block := ⟨name, entries⟩
  have named : IsName block.name := isName_of_isIdentifier identifier oneLine
  have absent : Undeclared block.name file.lines :=
    (undeclared_iff named).mpr (mem_names_ofLines.not.mp fresh)
  -- The first save writes the lines of the block, and what it writes is read as it was written.
  obtain ⟨span, removed⟩ := remove_added readable counting named contained absent
  have readAgain := TextFile.ofBytes_append apart
    (isOneLine_added readable named contained unit eachOneLine) (List.cons_ne_nil _ _)
    (@getLast?_added block file.lines settings readable counting named contained)
  simp only [← shape, ← lines] at readAgain
  have opening : (opened path settings world).IsAt _ location content := isAt_opened stores
  have adding := (opening.load read).addBlock saves read identifier fresh absent rfl readAgain
  have longer : file.lines ≠ file.lines ++ block.addedLines file.lines settings := by
    simp [Block.addedLines]
  -- The second save takes them out again and ends the lines that are left as they were ended.
  obtain ⟨last, removing⟩ := adding.removeBlock saves readAgain named removed longer
  have unchanged : file.toBytes = content := by
    rw [TextFile.toBytes_eq, bytes]
    exact congrArg (markedBytes file.marked) restored
  simp only [run_request, run_nil]
  refine ⟨⟨_, adding.stores, readAgain, mem_names_of_remove named removed⟩, removing.failures, ?_⟩
  rw [← unchanged]
  exact removing.stores

def openEnd : Text :=
  ['e', 'n', 'u', 'm', ' ', 'B', '{', '\r', '\n', '}']

theorem restored_run_create_remove_openEnd :
    let added := (opened onlyPath { savesUnchanged := false }
      (machineWith (markedBytes true openEnd))).run
        [.request .load, .request (.create ['A']),
          .request (.replaceEntries ['A'] [⟨['X'], ['1'], ['{']⟩, ⟨[' '], ['{'], []⟩]),
          .request .save]
    let final := added.run [.request (.remove ['A']), .request .save]
    (∃ between, added.world.Stores onlyPath [['T']] (TextFile.toBytes between) ∧
      TextFile.ofBytes between.toBytes = .ok between ∧
      ['A'] ∈ (Outline.ofLines between.lines).names) ∧
    final.failures = [] ∧ final.world.Stores onlyPath [['T']] (markedBytes true openEnd) := by
  have contained : ∀ entry ∈ [(⟨['X'], ['1'], ['{']⟩ : Entry), ⟨[' '], ['{'], []⟩],
      entry.isWritten = true → entry.Contained := by
    simp only [List.forall_mem_cons, List.not_mem_nil, false_implies, implies_true, and_true]
    constructor
    · intro _
      exact ⟨⟨by decide, by decide, by decide⟩, by decide, by decide⟩
    · intro written
      contradiction
  have uniform : ∀ ending ∈ breaksOf openEnd, ending = ['\r', '\n'] := by decide
  have readable : Settings.Readable { savesUnchanged := false } :=
    ⟨Settings.readable_default.modifier, Settings.readable_default.indentUnit⟩
  exact restored_run_create_remove (stores_machineWith (markedBytes true openEnd))
    (TextFile.ofBytes_markedBytes (.inl rfl)) rfl uniform rfl rfl readable (by decide) (by decide)
    (by decide) (by decide) contained

end Session

end EnumBlocks
