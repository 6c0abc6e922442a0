import EnumBlocks.Proofs.Removal
import EnumBlocks.Proofs.Rereading

/-!
A file that is changed by others while a document on it is edited. A save reads the file anew, and
with settings that leave unchanged blocks alone it writes the edited block only: what others made of
another block in the meantime stays, as long as the reader does not take the edited block for a part
of it. An edit of one block is an edit of no other: entries that a block is given are values, held by
that block alone.
-/

namespace EnumBlocks

/-- Whether a request changes the entries of no block but one, and nothing else that is to be
saved. -/
def Request.EditsOnly (name : Text) : Request → Prop
  | .load | .save | .preview | .getBlock _ | .isCreated _ => True
  | .replaceEntries other _ | .edit other _ => other = name
  | .create _ | .remove _ | .configure _ => False

def Request.KeepsTo (name : Text) : Request → Prop
  | .replaceEntries other _ | .edit other _ => other = name
  | .getBlock _ | .isCreated _ | .preview => True
  | .load | .save | .create _ | .remove _ | .configure _ => False

theorem Request.EditsOnly.cases {name : Text} {request : Request} (edits : request.EditsOnly name) :
    request = .load ∨ request = .save ∨ request.KeepsTo name := by
  cases request with
  | load => exact .inl rfl
  | save => exact .inr (.inl rfl)
  | replaceEntries | edit | getBlock | isCreated | preview => exact .inr (.inr edits)
  | create | remove | configure => exact edits.elim

def Event.EditsOnly (name : Text) : Event → Prop
  | .request asked => asked.EditsOnly name
  | .outside _ => True

namespace Document

variable {document next : Document} {name : Text}

/-- Whether a document differs from what was loaded in the entries of one block at most. -/
structure DiffersAt (document : Document) (name : Text) : Prop where
  pending : document.pending = {}
  others : ∀ block ∈ document.outline.blocks, block.name ≠ name →
    document.loaded.find? block.name = some block

theorem DiffersAt.withLines (document : Document) (lines : List Text) (name : Text) :
    (document.withLines lines).DiffersAt name :=
  ⟨rfl, fun _ membership _ => Outline.find?_eq_some_iff.mpr ⟨membership, rfl⟩⟩

theorem DiffersAt.put (differs : document.DiffersAt name) {block : Block}
    (named : block.name = name) :
    { document with outline := document.outline.put block }.DiffersAt name := by
  refine ⟨differs.pending, fun other membership different => ?_⟩
  rcases Outline.mem_blocks_put.mp membership with rfl | ⟨old, -⟩
  · exact absurd named different
  · exact differs.others other old different

theorem exists_put_of_replaceEntries {entries : List Entry}
    (done : document.replaceEntries name entries = .ok next) :
    ∃ block, block.name = name ∧
      next = { document with outline := document.outline.put block } := by
  obtain ⟨block, found, rfl⟩ := map_eq_ok done
  exact ⟨{ block with entries := entries }, (block?_eq_ok found).2, rfl⟩

theorem exists_put_of_editBlock {edit : Edit} {answer : EditAnswer}
    (done : document.editBlock name edit = .ok (answer, next)) :
    ∃ block, block.name = name ∧
      next = { document with outline := document.outline.put block } := by
  unfold editBlock at done
  split at done
  · contradiction
  · rename_i block found
    split at done
    · contradiction
    · rename_i edited carriedOut
      cases done
      exact ⟨edited, (name_edit carriedOut).trans (block?_eq_ok found).2, rfl⟩

theorem perform_keepsTo {request : Request} (keeps : request.KeepsTo name) {world : World}
    {reply : Reply}
    (done : ((document.perform request : StateM World _) world).1 = .ok (reply, next)) :
    next = document ∨
      ∃ block, block.name = name ∧
        next = { document with outline := document.outline.put block } := by
  cases request with
  | replaceEntries other entries =>
      obtain ⟨changed, replaced, equality⟩ := map_eq_ok done
      cases equality
      obtain ⟨block, named, shape⟩ := exists_put_of_replaceEntries replaced
      exact .inr ⟨block, named.trans keeps, shape⟩
  | edit other edit =>
      obtain ⟨⟨answer, changed⟩, carriedOut, equality⟩ := map_eq_ok done
      cases equality
      obtain ⟨block, named, shape⟩ := exists_put_of_editBlock carriedOut
      exact .inr ⟨block, named.trans keeps, shape⟩
  | getBlock other =>
      obtain ⟨block, -, equality⟩ := map_eq_ok done
      cases equality
      exact .inl rfl
  | isCreated other =>
      cases done
      exact .inl rfl
  | preview =>
      obtain ⟨prepared, -, equality⟩ := map_eq_ok done
      cases equality
      exact .inl rfl
  | load | save | create | remove | configure => exact keeps.elim

theorem DiffersAt.perform (differs : document.DiffersAt name) {request : Request}
    (edits : request.EditsOnly name) {world : World} {reply : Reply}
    (done : ((document.perform request : StateM World _) world).1 = .ok (reply, next)) :
    next.DiffersAt name ∧ next.path = document.path ∧ next.settings = document.settings := by
  obtain rfl | rfl | keeps := edits.cases
  · obtain ⟨⟨file, loaded⟩, read, equality⟩ := map_eq_ok done
    cases equality
    obtain rfl := load_eq_ok read
    exact ⟨.withLines document file.lines name, rfl, rfl⟩
  · obtain ⟨⟨stored, saved⟩, written, equality⟩ := map_eq_ok done
    cases equality
    obtain ⟨lines, rfl⟩ := save_eq_ok written
    exact ⟨.withLines document lines name, rfl, rfl⟩
  · obtain rfl | ⟨block, named, rfl⟩ := perform_keepsTo keeps done
    · exact ⟨differs, rfl, rfl⟩
    · exact ⟨differs.put named, rfl, rfl⟩

theorem DiffersAt.blocksToUpdate_cases (differs : document.DiffersAt name) :
    blocksToUpdate document.outline document.pending (some document.loaded) = [] ∨
      ∃ block, block.name = name ∧
        blocksToUpdate document.outline document.pending (some document.loaded) = [block] := by
  have named : ∀ block ∈
      blocksToUpdate document.outline document.pending (some document.loaded),
      block.name = name := by
    intro block membership
    obtain ⟨present, kept⟩ := List.mem_filter.mp membership
    by_contra different
    simp [differs.others block present different] at kept
  have distinct :
      ((blocksToUpdate document.outline document.pending (some document.loaded)).map
        Block.name).Nodup := document.outline.distinct_filter _
  generalize blocksToUpdate document.outline document.pending (some document.loaded) = blocks
    at named distinct
  cases blocks with
  | nil => exact .inl rfl
  | cons block rest =>
      cases rest with
      | nil => exact .inr ⟨block, named block List.mem_cons_self, rfl⟩
      | cons next others =>
          have same : block.name = next.name :=
            (named block List.mem_cons_self).trans (named next (by simp)).symm
          simp [same] at distinct

/-- Saving such a document replaces the lines of the edited block, or none. -/
theorem DiffersAt.commitTo_cases (differs : document.DiffersAt name)
    (saves : document.settings.savesUnchanged = false) {lines : List Text} {span : Span}
    (located : spanOf name lines document.settings.counting = .ok span) :
    (document.commitTo lines).errors = [] ∧
      ((document.commitTo lines).lines = lines ∨
        ∃ written, written ≠ [] ∧
          (document.commitTo lines).lines =
            lines.take span.head ++ written ++ lines.drop (span.closing + 1)) := by
  have whole : document.commitTo lines =
      (blocksToUpdate document.outline document.pending (some document.loaded)).foldl
        (Commit.update document.settings) (Commit.start lines) := by
    rw [commitTo, baseline_eq saves, differs.pending, commit]
    have insertions : blocksToInsert document.outline {} = [] := by simp [blocksToInsert]
    rw [insertions]
    rfl
  rw [whole]
  rcases differs.blocksToUpdate_cases with none | ⟨block, rfl, one⟩
  · rw [none]
    exact ⟨rfl, .inl rfl⟩
  · have replaced := replace_eq located
    rw [one, List.foldl_cons, List.foldl_nil, Commit.update, Commit.start, replaced]
    exact ⟨rfl, .inr ⟨_, List.cons_ne_nil _ _, rfl⟩⟩

/-- The file is then read with the lines before and after the edited block. -/
theorem DiffersAt.reread_saved (differs : document.DiffersAt name)
    (saves : document.settings.savesUnchanged = false) {content : Bytes} {file : TextFile}
    (read : TextFile.ofBytes content = .ok file) {span : Span}
    (located : spanOf name file.lines document.settings.counting = .ok span) :
    ∃ reloaded, TextFile.ofBytes (document.savedBytes file content) = .ok reloaded ∧
      (∃ back, reloaded.lines = file.lines.take span.head ++ back) ∧
      ∃ front, reloaded.lines = front ++ file.lines.drop (span.closing + 1) := by
  have same : file.lines = file.lines.take span.head ++ file.lines.drop span.head ∧
      file.lines = file.lines.take (span.closing + 1) ++ file.lines.drop (span.closing + 1) :=
    ⟨(List.take_append_drop _ _).symm, (List.take_append_drop _ _).symm⟩
  rw [savedBytes_eq]
  split
  · exact ⟨file, read, ⟨_, same.1⟩, _, same.2⟩
  · rename_i changed
    rcases (differs.commitTo_cases saves located).2 with kept | ⟨written, nonempty, replaced⟩
    · exact absurd kept changed
    · have bounds := spanOf_bounds located
      obtain ⟨text, shape, -, apart⟩ := TextFile.ofBytes_eq_ok read
      generalize file.marked = marked at shape apart
      subst shape
      rw [replaced]
      exact TextFile.reread_replaced apart (bounds.1.trans bounds.2.1) bounds.2.2 nonempty

end Document

section Reader

theorem undeclared_behind {name line : Text} {front back : List Text}
    (once : (front ++ back).countP (declares name) = 1) (present : line ∈ front)
    (declared : declares name line = true) : Undeclared name back := by
  have counted : 0 < front.countP (declares name) :=
    List.countP_pos_iff.mpr ⟨line, present, declared⟩
  rw [List.countP_append] at once
  exact countP_declares_eq_zero_iff.mp (by omega)

variable {edited other : Text} {lines reread : List Text} {counting : Counting}
  {span otherSpan : Span} (named : IsName other)
  (located : spanOf edited lines counting = .ok span)
  (otherLocated : spanOf other lines counting = .ok otherSpan)
  (apart : span.Apart otherSpan) (once : lines.countP (declares other) = 1)

include named located otherLocated apart once in
/-- A block apart from the lines that were replaced is read as it was. If it stands in front of them,
the reader has to leave it before they begin, and they may not declare it again. -/
theorem find?_ofLines_reread (before : ∃ back, reread = lines.take span.head ++ back)
    (behind : ∃ front, reread = front ++ lines.drop (span.closing + 1))
    (left : otherSpan.closing < span.head → reread.countP (declares other) = 1 ∧
      ¬ LeavesOpen other (lines.take span.head)) :
    (Outline.ofLines reread).find? other = (Outline.ofLines lines).find? other := by
  have bounds := spanOf_bounds located
  have otherBounds := spanOf_bounds otherLocated
  have inside : otherSpan.head < lines.length := by omega
  have declared := declares_getElem_head otherLocated inside
  rcases apart with later | earlier
  · -- The other block stands behind, where the last declaration counts.
    have present : other ∈ declaredNames (lines.drop (span.closing + 1)) := by
      by_contra absent
      have membership : lines[otherSpan.head] ∈ lines.drop (span.closing + 1) :=
        List.mem_drop_iff_getElem.mpr ⟨otherSpan.head - (span.closing + 1), by omega, by
          congr 1
          omega⟩
      rw [(undeclared_iff named).mpr absent _ membership] at declared
      contradiction
    obtain ⟨front, rfl⟩ := behind
    have whole := List.take_append_drop (span.closing + 1) lines
    rw [find?_ofLines_of_declared_behind front present,
      ← find?_ofLines_of_declared_behind (lines.take (span.closing + 1)) present, whole]
  · -- The other block stands in front, and is not declared again.
    obtain ⟨onceAgain, closed⟩ := left earlier
    have present : lines[otherSpan.head] ∈ lines.take span.head :=
      List.mem_take_iff_getElem.mpr ⟨otherSpan.head, by omega, rfl⟩
    have declaredBefore : other ∈ declaredNames (lines.take span.head) := by
      by_contra absent
      rw [(undeclared_iff named).mpr absent _ present] at declared
      contradiction
    have alone : ∀ back, (lines.take span.head ++ back).countP (declares other) = 1 →
        other ∉ declaredNames back :=
      fun _ single => (undeclared_iff named).mp (undeclared_behind single present declared)
    obtain ⟨back, rfl⟩ := before
    have whole := List.take_append_drop span.head lines
    rw [← whole] at once
    rw [find?_ofLines_of_left declaredBefore (alone back onceAgain) closed,
      ← find?_ofLines_of_left declaredBefore (alone _ once) closed, whole]

include named located otherLocated apart once in
/-- The reader has left a block before a later one begins if neither a declaration nor a directive
among its lines hides a brace. -/
theorem not_leavesOpen_of_located (perCharacter : counting = .perCharacter)
    (alone : ∀ line ∈ (otherSpan.extract lines).tail, Declaration.ofLine? line = none)
    (braceless : ∀ line ∈ otherSpan.extract lines,
      isDirective (Text.strip line) = true → Braceless (codeOf line)) :
    ¬ LeavesOpen other (lines.take span.head) := by
  intro opened
  have absentBefore := (undeclared_iff named).mp (undeclared_take_head otherLocated)
  rcases apart with later | earlier
  · have bounds := spanOf_bounds located
    have front : lines.take span.head <+: lines.take otherSpan.head :=
      List.take_prefix_take_left (by omega)
    obtain ⟨more, shape⟩ := front
    rw [← shape, declaredNames_append] at absentBefore
    exact absentBefore (List.mem_append_left _ opened.declared)
  · have shape : lines.take span.head = lines.take otherSpan.head ++ otherSpan.extract lines ++
        (lines.drop (otherSpan.closing + 1)).take (span.head - (otherSpan.closing + 1)) := by
      rw [← take_closing_eq otherLocated, ← List.take_add]
      congr 1
      omega
    rw [shape] at opened
    rcases opened.of_append with upToEnd | between
    · rcases upToEnd.of_append with outside | ⟨scope, inside, -⟩
      · exact absentBefore outside.declared
      · have settled := settled_of_isExtent (perCharacter ▸ isExtent_extract otherLocated) named
          alone braceless
        rw [settled] at inside
        contradiction
    · have absentBehind := (undeclared_iff named).mp (undeclared_outside otherLocated once).2
      rw [← List.take_append_drop (span.head - (otherSpan.closing + 1))
        (lines.drop (otherSpan.closing + 1)), declaredNames_append] at absentBehind
      exact absentBehind (List.mem_append_left _ between.declared)

end Reader

namespace Session

theorem differsAt_run {session : Session} {name : Text} {events : List Event}
    (edits : ∀ event ∈ events, event.EditsOnly name)
    (differs : session.document.DiffersAt name) :
    (session.run events).document.DiffersAt name ∧
      (session.run events).document.path = session.document.path ∧
      (session.run events).document.settings = session.document.settings := by
  apply document_run fun document => document.DiffersAt name ∧
    document.path = session.document.path ∧ document.settings = session.document.settings
  · intro request membership document next world reply known done
    obtain ⟨differs, path, settings⟩ := known
    obtain ⟨later, laterPath, laterSettings⟩ :=
      differs.perform (edits (.request request) membership) done
    exact ⟨later, laterPath.trans path, laterSettings.trans settings⟩
  · exact ⟨differs, rfl, rfl⟩

theorem ask_save_stored {session : Session} {location : Location} {content : Bytes}
    {file : TextFile} (stores : session.world.Stores session.document.path location content)
    (read : TextFile.ofBytes content = .ok file) :
    (session.ask .save).failures = session.failures ∧
      (session.ask .save).world.Stores session.document.path location
        (session.document.savedBytes file content) := by
  obtain ⟨reloaded, after, -, saved, storesAfter⟩ := Document.save_stored stores read
  have done : (session.document.perform .save : StateM World _) session.world =
      (.ok (.commit (session.document.commitTo file.lines),
        session.document.withLines reloaded.lines), after) := by
    rw [Document.perform, bind_apply, saved]
    rfl
  rw [ask_of_perform done]
  exact ⟨rfl, storesAfter⟩

/-- What others make of a block is kept by a save of edits of another block. The file is loaded, others
change it while one block is edited, and the document is saved: nothing fails, and a block apart from
the edited one is read from the saved file as from the one that the others left, if it stands behind
the edited block, or stands in front of it and is left by the reader there and not declared again.
The reader has left it if neither a declaration nor a directive among its lines hides a brace. -/
theorem kept_run_edits_save {path : Path} {settings : Settings} {world : World}
    {location : Location} {content : Bytes} {file : TextFile} {edited other : Text}
    {events : List Event} {span otherSpan : Span}
    (saves : settings.savesUnchanged = false)
    (edits : ∀ event ∈ events, event.EditsOnly edited)
    (stores : ((opened path settings world).run (.request .load :: events)).world.Stores path
      location content)
    (read : TextFile.ofBytes content = .ok file) (named : IsName other)
    (located : spanOf edited file.lines settings.counting = .ok span)
    (otherLocated : spanOf other file.lines settings.counting = .ok otherSpan)
    (apart : span.Apart otherSpan) (once : file.lines.countP (declares other) = 1) :
    let editing := (opened path settings world).run (.request .load :: events)
    let saved := editing.ask .save
    saved.failures = editing.failures ∧ (editing.document.commitTo file.lines).errors = [] ∧
      (∃ bytes reloaded, saved.world.Stores path location bytes ∧
        TextFile.ofBytes bytes = .ok reloaded ∧
        ((otherSpan.closing < span.head → reloaded.lines.countP (declares other) = 1 ∧
            ¬ LeavesOpen other (file.lines.take span.head)) →
          (Outline.ofLines reloaded.lines).find? other =
            (Outline.ofLines file.lines).find? other)) ∧
      (settings.counting = .perCharacter →
        (∀ line ∈ (otherSpan.extract file.lines).tail, Declaration.ofLine? line = none) →
        (∀ line ∈ otherSpan.extract file.lines,
          isDirective (Text.strip line) = true → Braceless (codeOf line)) →
        ¬ LeavesOpen other (file.lines.take span.head)) := by
  intro editing saved
  have start : (opened path settings world).document.DiffersAt edited :=
    ⟨rfl, fun block membership => by cases membership⟩
  obtain ⟨differs, samePath, sameSettings⟩ : editing.document.DiffersAt edited ∧
      editing.document.path = path ∧ editing.document.settings = settings :=
    differsAt_run (List.forall_mem_cons.mpr ⟨trivial, edits⟩) start
  have savesNow : editing.document.settings.savesUnchanged = false := by rw [sameSettings, saves]
  have locatedNow : spanOf edited file.lines editing.document.settings.counting = .ok span := by
    rw [sameSettings, located]
  have storesNow : editing.world.Stores editing.document.path location content := by
    rw [samePath]
    exact stores
  obtain ⟨failures, storesSaved⟩ := ask_save_stored storesNow read
  obtain ⟨reloaded, readAgain, before, behind⟩ := differs.reread_saved savesNow read locatedNow
  refine ⟨failures, (differs.commitTo_cases savesNow locatedNow).1,
    ⟨_, reloaded, samePath ▸ storesSaved, readAgain, ?_⟩, ?_⟩
  · exact find?_ofLines_reread named located otherLocated apart once before behind
  · exact not_leavesOpen_of_located named located otherLocated apart once

def twoBlocksWith (entry : Char) : Text :=
  ['e', 'n', 'u', 'm', ' ', 'A', '{', 'X', '}', '\n',
   'e', 'n', 'u', 'm', ' ', 'B', '{', entry, '}']

def overwrite (text : Text) : Event :=
  .outside fun world =>
    { world with tree := world.tree.update [['T']] fun _ => Utf8.encode text }

theorem kept_run_edits_save_twoBlocks :
    ∃ bytes reloaded,
      ((opened onlyPath { savesUnchanged := false }
        (machineWith (Utf8.encode (twoBlocksWith 'Y')))).run
          [.request .load, overwrite (twoBlocksWith 'Z'),
            .request (.replaceEntries ['A'] [⟨['W'], [], []⟩]), .request .save]).world.Stores
              onlyPath [['T']] bytes ∧
        TextFile.ofBytes bytes = .ok reloaded ∧
        (Outline.ofLines reloaded.lines).find? ['B'] = some ⟨['B'], [⟨['Z'], [], []⟩]⟩ := by
  have edits : ∀ event ∈ [overwrite (twoBlocksWith 'Z'),
      .request (.replaceEntries ['A'] [⟨['W'], [], []⟩])], event.EditsOnly ['A'] := by
    intro event membership
    rcases List.mem_cons.mp membership with rfl | last
    · trivial
    · obtain rfl := List.mem_singleton.mp last
      rfl
  have stores : ((opened onlyPath { savesUnchanged := false }
      (machineWith (Utf8.encode (twoBlocksWith 'Y')))).run
        [.request .load, overwrite (twoBlocksWith 'Z'),
          .request (.replaceEntries ['A'] [⟨['W'], [], []⟩])]).world.Stores onlyPath [['T']]
            (Utf8.encode (twoBlocksWith 'Z')) :=
    ⟨rfl, ⟨.ofDigit 6, rfl, rfl, rfl⟩, Option.some_ne_none _ |>.symm, rfl⟩
  have located : spanOf ['A'] (Text.fileLines (twoBlocksWith 'Z')) .perCharacter =
      .ok ⟨0, 0, 0⟩ := rfl
  have otherLocated : spanOf ['B'] (Text.fileLines (twoBlocksWith 'Z')) .perCharacter =
      .ok ⟨1, 1, 1⟩ := rfl
  have read : TextFile.ofBytes (Utf8.encode (twoBlocksWith 'Z')) =
      .ok (.ofText (twoBlocksWith 'Z') false) := rfl
  obtain ⟨-, -, ⟨bytes, reloaded, storesSaved, readAgain, kept⟩, -⟩ :=
    kept_run_edits_save rfl edits stores read (by decide) located otherLocated
      (.inl (by decide)) (by decide)
  refine ⟨bytes, reloaded, storesSaved, readAgain, ?_⟩
  rw [kept fun earlier => by contradiction]
  decide

/-- A file with a block whose closing brace stands in a directive, before a block and an entry. -/
def openBlockWith (entry : Char) : Text :=
  ['e', 'n', 'u', 'm', ' ', 'B', '{', '\n', 'X', '\n', 'u', 's', 'i', 'n', 'g', ' ', '}', ';', '\n',
   'e', 'n', 'u', 'm', ' ', 'A', '{', '\n', '}', '\n', entry, '\n', '}']

/-- A save undoes what others made of a block if unchanged blocks are to be written as well, and may
undo it if the reader takes the edited block for a part of the other. -/
theorem lost_run_edits_save :
    (∃ bytes reloaded,
      let lines := Text.fileLines (twoBlocksWith 'Z')
      let final := (opened onlyPath {} (machineWith (Utf8.encode (twoBlocksWith 'Y')))).run
        [.request .load, overwrite (twoBlocksWith 'Z'),
          .request (.replaceEntries ['A'] [⟨['W'], [], []⟩]), .request .save]
      spanOf ['A'] lines .perCharacter = .ok ⟨0, 0, 0⟩ ∧
        spanOf ['B'] lines .perCharacter = .ok ⟨1, 1, 1⟩ ∧
        final.failures = [] ∧ final.world.tree.readFile onlyPath = .ok bytes ∧
        TextFile.ofBytes bytes = .ok reloaded ∧
        (Outline.ofLines lines).find? ['B'] = some ⟨['B'], [⟨['Z'], [], []⟩]⟩ ∧
        (Outline.ofLines reloaded.lines).find? ['B'] = some ⟨['B'], [⟨['Y'], [], []⟩]⟩) ∧
      ∃ bytes reloaded,
        let lines := Text.fileLines (openBlockWith 'Z')
        let final := (opened onlyPath { savesUnchanged := false }
          (machineWith (Utf8.encode (openBlockWith 'Y')))).run
            [.request .load, overwrite (openBlockWith 'Z'),
              .request (.replaceEntries ['A'] [⟨['W'], ['}'], []⟩]), .request .save]
        spanOf ['A'] lines .perCharacter = .ok ⟨3, 3, 4⟩ ∧
          spanOf ['B'] lines .perCharacter = .ok ⟨0, 0, 2⟩ ∧
          final.failures = [] ∧ final.world.tree.readFile onlyPath = .ok bytes ∧
          TextFile.ofBytes bytes = .ok reloaded ∧
          (Outline.ofLines lines).find? ['B'] =
            some ⟨['B'], [⟨['X'], [], []⟩, ⟨['Z'], [], []⟩]⟩ ∧
          (Outline.ofLines reloaded.lines).find? ['B'] = some ⟨['B'], [⟨['X'], [], []⟩]⟩ := by
  refine ⟨⟨_, _, by decide, by decide, by decide +kernel, rfl, rfl, by decide, by decide +kernel⟩,
    _, _, by decide, by decide, by decide +kernel, rfl, rfl, by decide, by decide +kernel⟩

end Session

end EnumBlocks
