import EnumBlocks.Document.Request
import EnumBlocks.Proofs.Session

/-!
What requests come to when they are carried out in place. Every request looks for what could make it
fail before its first change, so that it is carried out as a whole or not at all.
-/

namespace EnumBlocks

/-- How a change ends that is made as a whole or not at all, and the state that it leaves. -/
def settle {σ ε α : Type} (state : σ) : Except ε (α × σ) → Except ε α × σ
  | .ok (value, changed) => (.ok value, changed)
  | .error failure => (.error failure, state)

namespace Course

variable {m : Type → Type} [Monad m] [LawfulMonad m] {σ ε α β : Type}

theorem runOn_map_of_settled {course : Course m σ ε α} {state : σ}
    {whole : m (Except ε (α × σ))} (settled : course.runOn state = settle state <$> whole)
    (answer : α → β) :
    (do return answer (← course) : Course m σ ε β).runOn state =
      (fun result => settle state (result.map fun parts => (answer parts.1, parts.2))) <$>
        whole := by
  rw [runOn_bind, settled, bind_map_left, map_eq_pure_bind]
  apply bind_congr
  intro result
  cases result with
  | error failure => rfl
  | ok parts => rfl

end Course

namespace Block

open Course

variable (block : Block)

theorem runOn_takeInPlace (index : Int) :
    (takeInPlace index).runOn block = settle block (block.take index) := by
  rw [takeInPlace, runOn_get_bind, runOn_ofResult_bind]
  cases block.take index with
  | error cause => rfl
  | ok parts => rfl

theorem runOn_addInPlace (name value comment : Text) :
    (addInPlace name value comment).runOn block =
      settle block (block.add name value comment) := by
  rw [addInPlace, runOn_get_bind, add]
  split
  · rfl
  · rfl

theorem runOn_renameInPlace (index : Int) (name : Text) :
    (renameInPlace index name).runOn block =
      settle block ((block.rename index name).map fun renamed => ((), renamed)) := by
  rw [renameInPlace, runOn_get_bind, runOn_ofResult_bind, entryAt, rename]
  cases position? block.entries.length index with
  | none => rfl
  | some place =>
      simp only
      cases block.entries[place]? with
      | none => rfl
      | some entry =>
          simp only
          by_cases own : name = entry.name
          · rw [if_pos own, if_pos own]
            rfl
          · rw [if_neg own, if_neg own]
            by_cases invalid : isIdentifier name = false
            · rw [if_pos invalid, if_pos invalid]
              rfl
            · rw [if_neg invalid, if_neg invalid]
              split
              · rfl
              · rfl

theorem runOn_moveInPlace (index offset : Int) :
    (moveInPlace index offset).runOn block = settle block (block.move index offset) := by
  rw [moveInPlace, runOn_get_bind, move]
  simp only
  by_cases there : block.moveTarget index offset = index
  · rw [if_pos there, if_pos there]
    rfl
  · -- The entry is put in again only after it was taken out.
    rw [if_neg there, if_neg there, runOn_bind, runOn_takeInPlace]
    cases block.take index with
    | error cause => rfl
    | ok parts => rfl

theorem runOn_editInPlace (edit : Edit) :
    (editInPlace edit).runOn block = settle block (block.edit edit) := by
  cases edit with
  | add name value comment =>
      exact runOn_map_of_settled (m := Id) (runOn_addInPlace block name value comment)
        EditAnswer.entry
  | remove index =>
      exact runOn_map_of_settled (m := Id) (runOn_takeInPlace block index) EditAnswer.entry
  | rename index name =>
      rw [editInPlace, runOn_bind, runOn_renameInPlace, Block.edit]
      cases block.rename index name with
      | error cause => rfl
      | ok renamed => rfl
  | move index offset =>
      exact runOn_map_of_settled (m := Id) (runOn_moveInPlace block index offset)
        EditAnswer.position

end Block

namespace Document

open Course

variable {m : Type → Type} [Monad m] [LawfulMonad m] (document : Document)

theorem runOn_createInPlace (name : Text) :
    (createInPlace name : Course m Document Failure Block).runOn document =
      pure (settle document (document.create name)) := by
  rw [createInPlace, runOn_get_bind, create]
  by_cases invalid : isIdentifier name = false
  · rw [if_pos invalid, if_pos invalid, runOn_throw]
    rfl
  · rw [if_neg invalid, if_neg invalid]
    by_cases taken : document.outline.contains name = true
    · rw [if_pos taken, if_pos taken, runOn_throw]
      rfl
    · rw [if_neg taken, if_neg taken]
      simp only
      split
      · simp only [runOn_modify_bind, runOn_pure]
        rfl
      · simp only [runOn_modify_bind, runOn_pure]
        rfl

theorem runOn_removeInPlace (name : Text) :
    (removeInPlace name : Course m Document Failure Unit).runOn document =
      pure (settle document ((document.remove name).map fun removed => ((), removed))) := by
  rw [removeInPlace, runOn_get_bind, remove]
  by_cases present : document.outline.contains name = true
  · rw [if_pos present, if_pos present, runOn_modify_bind]
    split
    · rw [runOn_modify]
      rfl
    · rw [runOn_modify]
      rfl
  · rw [if_neg present, if_neg present, runOn_throw]
    rfl

theorem runOn_replaceEntriesInPlace (name : Text) (entries : List Entry) :
    (replaceEntriesInPlace name entries : Course m Document Failure Unit).runOn document =
      pure (settle document
        ((document.replaceEntries name entries).map fun replaced => ((), replaced))) := by
  rw [replaceEntriesInPlace, runOn_get_bind, runOn_ofResult_bind, replaceEntries]
  cases document.block? name with
  | error failure => rfl
  | ok block =>
      simp only [runOn_modify]
      rfl

theorem runOn_editBlockInPlace (name : Text) (edit : Edit) :
    (editBlockInPlace name edit : Course m Document Failure EditAnswer).runOn document =
      pure (settle document (document.editBlock name edit)) := by
  rw [editBlockInPlace, runOn_get_bind, runOn_ofResult_bind, editBlock]
  cases found : document.block? name with
  | error failure => rfl
  | ok block =>
      simp only [Block.runOn_editInPlace]
      cases block.edit edit with
      | ok parts =>
          simp only [settle, runOn_modify_bind, runOn_ofResult]
          rfl
      | error cause =>
          simp only [settle, runOn_modify_bind, runOn_ofResult,
            Outline.put_of_mem (block?_eq_ok found).1]
          rfl

variable [Host m]

theorem runOn_loadInPlace :
    (loadInPlace : Course m Document Failure TextFile).runOn document =
      settle document <$> document.load := by
  rw [loadInPlace, runOn_get_bind, runOn_attempt_bind, load, map_bind]
  apply bind_congr
  intro result
  cases result with
  | error failure =>
      rw [map_pure]
      rfl
  | ok file =>
      simp only [runOn_act_bind, runOn_modify_bind, runOn_get_bind, runOn_pure, map_bind, map_pure]
      rfl

theorem runOn_previewInPlace :
    (previewInPlace : Course m Document Failure Commit).runOn document =
      (fun result => settle document (result.map fun prepared => (prepared, document))) <$>
        document.preview := by
  rw [previewInPlace, runOn_get_bind, runOn_attempt_bind, preview, map_bind]
  apply bind_congr
  intro result
  cases result with
  | error failure =>
      rw [map_pure]
      rfl
  | ok parts =>
      rw [map_pure]
      rfl

theorem runOn_saveInPlace :
    (saveInPlace : Course m Document Failure Commit).runOn document =
      settle document <$> document.save := by
  rw [saveInPlace, runOn_get_bind, runOn_attempt_bind, save, map_bind]
  apply bind_congr
  intro result
  cases result with
  | error failure =>
      rw [map_pure]
      rfl
  | ok parts =>
      simp only [runOn_attempt_bind, map_bind]
      apply bind_congr
      intro stored
      cases stored with
      | error failure =>
          rw [map_pure]
          rfl
      | ok =>
          simp only [runOn_bind, runOn_loadInPlace, bind_map_left, map_bind]
          apply bind_congr
          intro loaded
          cases loaded with
          | error failure =>
              rw [map_pure]
              rfl
          | ok reloaded =>
              rw [map_pure]
              rfl

/-- A request is carried out as a whole or not at all. -/
theorem handle_eq (request : Request) :
    (document.handle request : m _) = settle document <$> document.perform request := by
  rw [handle]
  cases request with
  | load =>
      rw [performInPlace, runOn_map_of_settled (runOn_loadInPlace document), perform, map_bind,
        map_eq_pure_bind]
      simp only [map_pure]
  | create name =>
      have settled : (createInPlace name : Course m Document Failure Block).runOn document =
          settle document <$> pure (document.create name) := by
        rw [runOn_createInPlace, map_pure]
      rw [performInPlace, runOn_map_of_settled settled, perform, map_pure, map_pure]
  | remove name =>
      rw [performInPlace, runOn_bind, runOn_removeInPlace, pure_bind, perform, map_pure]
      cases document.remove name with
      | error failure => rfl
      | ok removed => rfl
  | replaceEntries name entries =>
      rw [performInPlace, runOn_bind, runOn_replaceEntriesInPlace, pure_bind, perform, map_pure]
      cases document.replaceEntries name entries with
      | error failure => rfl
      | ok replaced => rfl
  | getBlock name =>
      rw [performInPlace, runOn_get_bind, runOn_ofResult_bind, perform, map_pure]
      cases document.block? name with
      | error failure => rfl
      | ok block => rfl
  | isCreated name =>
      rw [performInPlace, runOn_get_bind, runOn_pure, perform, map_pure]
      rfl
  | edit name edit =>
      have settled : (editBlockInPlace name edit : Course m Document Failure EditAnswer).runOn
          document = settle document <$> pure (document.editBlock name edit) := by
        rw [runOn_editBlockInPlace, map_pure]
      rw [performInPlace, runOn_map_of_settled settled, perform, map_pure, map_pure]
  | preview =>
      rw [performInPlace, runOn_bind, runOn_previewInPlace, bind_map_left, perform, map_bind]
      apply bind_congr
      intro result
      rw [map_pure]
      cases result with
      | error failure => rfl
      | ok prepared => rfl
  | save =>
      rw [performInPlace, runOn_map_of_settled (runOn_saveInPlace document), perform, map_bind,
        map_eq_pure_bind]
      simp only [map_pure]
  | configure settings =>
      rw [performInPlace, runOn_modify_bind, runOn_pure, perform, map_pure]
      rfl

end Document

end EnumBlocks
