import EnumBlocks.Proofs.Saving
import EnumBlocks.Proofs.SharedFile
import Mathlib.Data.List.Sort

/-!
A block that is created and removed again before anything is saved. Whether its name is new or was
to be removed from the file, the document is then what it was before, whatever was done to the
entries of the block in between. The entries that it is given are values, held by that block alone.
-/

namespace EnumBlocks

namespace NameSet

theorem ext_of_mem {set other : NameSet} (same : ∀ name, name ∈ set ↔ name ∈ other) :
    set = other := by
  have names : set.names = other.names := set.ordered.eq_of_mem_iff other.ordered same
  cases set
  cases other
  cases names
  rfl

theorem erase_insert {set : NameSet} {name : Text} (absent : name ∉ set) :
    (set.insert name).erase name = set := by
  apply ext_of_mem
  intro other
  rw [mem_erase, mem_insert]
  constructor
  · rintro ⟨same | present, different⟩
    · contradiction
    · exact present
  · intro present
    exact ⟨.inr present, fun same => absent (same ▸ present)⟩

theorem insert_erase {set : NameSet} {name : Text} (present : name ∈ set) :
    (set.erase name).insert name = set := by
  apply ext_of_mem
  intro other
  rw [mem_insert, mem_erase]
  constructor
  · rintro (rfl | ⟨kept, -⟩)
    · exact present
    · exact kept
  · intro kept
    by_cases same : other = name
    · exact .inl same
    · exact .inr ⟨kept, same⟩

end NameSet

theorem Outline.erase_put {outline : Outline} {block : Block}
    (absent : block.name ∉ outline.names) : (outline.put block).erase block.name = outline := by
  apply eq_of_blocks_eq
  have added := blocks_put_of_not_mem absent
  calc
    ((outline.put block).erase block.name).blocks
      = (outline.put block).blocks.filter (·.name ≠ block.name) := rfl
    _ = outline.blocks.filter (·.name ≠ block.name) := by simp [added]
    _ = outline.blocks := filter_name_of_absent absent

def Event.KeepsTo (name : Text) : Event → Prop
  | .request asked => asked.KeepsTo name
  | .outside _ => True

namespace Document

variable {document first next : Document} {name : Text}

/-- Whether a document is another one but for the entries of one block. -/
def IsWithBlock (first : Document) (name : Text) (document : Document) : Prop :=
  ∃ block, block.name = name ∧
    document = { first with outline := first.outline.put block }

theorem isWithBlock_of_create {block : Block} (created : first.create name = .ok (block, next)) :
    IsWithBlock next name next := by
  obtain ⟨-, -, named, rfl⟩ := create_eq_ok created
  refine ⟨block, named, ?_⟩
  rw [Outline.put_put rfl]

theorem IsWithBlock.perform (isWith : IsWithBlock first name document) {request : Request}
    (keeps : request.KeepsTo name) {world : World} {reply : Reply}
    (done : ((document.perform request : StateM World _) world).1 = .ok (reply, next)) :
    IsWithBlock first name next := by
  obtain rfl | ⟨block, named, rfl⟩ := perform_keepsTo keeps done
  · exact isWith
  · obtain ⟨earlier, earlierNamed, rfl⟩ := isWith
    refine ⟨block, named, ?_⟩
    rw [Outline.put_put (earlierNamed.trans named.symm)]

/-- Removing a block that was created takes back the creation: a name that is new is forgotten, and
one that was to be removed from the file is to be removed again. -/
theorem remove_of_isWithBlock (tracks : first.Tracks) {block : Block}
    (created : first.create name = .ok (block, next)) (isWith : IsWithBlock next name document) :
    document.remove name = .ok first := by
  obtain ⟨-, absent, named, rfl⟩ := create_eq_ok created
  obtain ⟨edited, editedNamed, rfl⟩ := isWith
  rw [Outline.put_put (named.trans editedNamed.symm)]
  subst editedNamed
  have present : (first.outline.put edited).contains edited.name = true :=
    decide_eq_true (Outline.mem_names_put.mpr (.inr rfl))
  have unlisted : edited.name ∉ first.pending.created := fun listed =>
    absent ((tracks.names edited.name).mpr (.inr listed))
  rw [remove, if_pos present, Outline.erase_put absent]
  by_cases returned : edited.name ∈ first.pending.deleted
  · rw [if_pos returned, if_neg unlisted, NameSet.insert_erase returned]
  · rw [if_neg returned, if_pos (NameSet.mem_insert.mpr (.inl rfl)), NameSet.erase_insert unlisted]

end Document

namespace Session

/-- Creating a block and removing it again is undone exactly, in every state that a document can
come to, and whatever is done to the entries of the block in between: the removal succeeds, and
leaves the blocks, what is pending, and so also whether there is anything to save, as they were
before. -/
theorem undone_run_create_remove {path : Path} {settings : Settings} {world : World}
    {history edits : List Event} {name : Text}
    (created : ∃ answer,
      ((opened path settings world).run history).document.create name = .ok answer)
    (keeps : ∀ event ∈ edits, event.KeepsTo name) :
    let before := (opened path settings world).run history
    let between := before.run (.request (.create name) :: edits)
    let after := between.ask (.remove name)
    name ∈ between.document.outline.names ∧ after.failures = between.failures ∧
      after.document = before.document := by
  intro before between after
  obtain ⟨⟨block, next⟩, created⟩ := created
  have tracks : before.document.Tracks := ((remembers_opened path settings world).run history).1
  have asked : (before.ask (.create name)).document = next := by
    rw [ask_of_perform (Document.perform_create created before.world)]
  have isWith : Document.IsWithBlock next name between.document := by
    have start : Document.IsWithBlock next name (before.ask (.create name)).document := by
      rw [asked]
      exact Document.isWithBlock_of_create created
    have split : between = (before.ask (.create name)).run edits := rfl
    rw [split]
    apply document_run (Document.IsWithBlock next name) _ start
    intro request membership document later world reply isWith done
    exact isWith.perform (keeps (.request request) membership) done
  have removed : between.document.remove name = .ok before.document :=
    Document.remove_of_isWithBlock tracks created isWith
  have final : after = { between with document := before.document } :=
    ask_of_perform (Document.perform_remove removed between.world)
  rw [final]
  exact ⟨(Document.remove_eq_ok removed).1, rfl, rfl⟩

def twoBlocksMachine : World :=
  machineWith (Utf8.encode (twoBlocksWith 'Y'))

def removedFirst : Session :=
  (opened onlyPath {} twoBlocksMachine).run [.request .load, .request (.remove ['A'])]

def editsOf (name : Text) : List Event :=
  [.request (.edit name (.add ['X'] ['1'] [])), .request (.edit name (.remove 0)),
    .request (.edit name (.remove 7)), .request (.replaceEntries name [])]

theorem keepsTo_of_mem_editsOf (name : Text) : ∀ event ∈ editsOf name, event.KeepsTo name := by
  simp only [editsOf, List.forall_mem_cons, List.not_mem_nil, false_implies, implies_true, and_true]
  exact ⟨rfl, rfl, rfl, rfl⟩

/-- The block that is to be removed comes back, and one is new; each is edited and removed. -/
theorem undone_run_create_remove_removedFirst :
    let returning := removedFirst.run (.request (.create ['A']) :: editsOf ['A'])
    let adding := removedFirst.run (.request (.create ['C']) :: editsOf ['C'])
    removedFirst.document.pending.deleted.names = [['A']] ∧
      returning.document.outline.names = [['B'], ['A']] ∧
      (returning.ask (.remove ['A'])).document = removedFirst.document ∧
      adding.document.outline.names = [['B'], ['C']] ∧
      (adding.ask (.remove ['C'])).document = removedFirst.document := by
  intro returning adding
  have undone (name : Text) (created : ∃ answer, removedFirst.document.create name = .ok answer) :
      ((removedFirst.run (.request (.create name) :: editsOf name)).ask (.remove name)).document =
        removedFirst.document :=
    (undone_run_create_remove created (keepsTo_of_mem_editsOf name)).2.2
  exact ⟨by decide, by decide, undone ['A'] ⟨_, rfl⟩, by decide, undone ['C'] ⟨_, rfl⟩⟩

end Session

end EnumBlocks
