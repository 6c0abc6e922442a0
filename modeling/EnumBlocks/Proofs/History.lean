import EnumBlocks.Proofs.InPlace
import EnumBlocks.Proofs.Storage

/-!
The history of a document: it is asked one thing after the other, while others may change the machine
in between. Whatever happens, in whatever order, and whatever fails, the document keeps track of how
the names of its blocks differ from those that the last load or save found.
-/

namespace EnumBlocks

def Request.reloads : Request → Bool
  | .load | .save => true
  | _ => false

namespace Document

variable {document next : Document} {world : World}

theorem load_eq_ok {file : TextFile}
    (done : ((document.load : StateM World _) world).1 = .ok (file, next)) :
    next = document.withLines file.lines := by
  rw [load_apply] at done
  split at done
  · contradiction
  · cases done
    rfl

theorem save_eq_ok {stored : Commit}
    (done : ((document.save : StateM World _) world).1 = .ok (stored, next)) :
    ∃ lines, next = document.withLines lines := by
  rw [save_apply] at done
  split at done
  · contradiction
  · split at done
    · contradiction
    · split at done
      · contradiction
      · rename_i file reloaded after loaded
        cases done
        exact ⟨file.lines, load_eq_ok (congrArg Prod.fst loaded)⟩

/-- What a request can do to a document whose file it does not read. -/
inductive Change (document : Document) : Document → Prop where
  | kept : Change document document
  | created {next : Document} {name : Text} {block : Block}
      (done : document.create name = .ok (block, next)) : Change document next
  | removed {next : Document} {name : Text} (done : document.remove name = .ok next) :
      Change document next
  | edited {block : Block} (present : block.name ∈ document.outline.names) :
      Change document { document with outline := document.outline.put block }
  | configured (settings : Settings) : Change document { document with settings := settings }

/-- What a request that is carried out does to a document. -/
theorem perform_eq_ok {request : Request} {reply : Reply}
    (done : ((document.perform request : StateM World _) world).1 = .ok (reply, next)) :
    if request.reloads then ∃ lines, next = document.withLines lines
    else document.Change next := by
  cases request with
  | load =>
      obtain ⟨⟨file, loaded⟩, read, equality⟩ := map_eq_ok done
      cases equality
      exact ⟨file.lines, load_eq_ok read⟩
  | save =>
      obtain ⟨⟨stored, saved⟩, written, equality⟩ := map_eq_ok done
      cases equality
      exact save_eq_ok written
  | preview =>
      obtain ⟨prepared, -, equality⟩ := map_eq_ok done
      cases equality
      exact .kept
  | create name =>
      obtain ⟨⟨block, changed⟩, created, equality⟩ := map_eq_ok done
      cases equality
      exact .created created
  | remove name =>
      obtain ⟨changed, removed, equality⟩ := map_eq_ok done
      cases equality
      exact .removed removed
  | replaceEntries name entries =>
      obtain ⟨changed, replaced, equality⟩ := map_eq_ok done
      cases equality
      obtain ⟨block, present, rfl⟩ := replaceEntries_eq_ok replaced
      exact .edited present
  | getBlock name =>
      obtain ⟨block, -, equality⟩ := map_eq_ok done
      cases equality
      exact .kept
  | isCreated name =>
      cases done
      exact .kept
  | edit name edit =>
      obtain ⟨⟨answer, changed⟩, carriedOut, equality⟩ := map_eq_ok done
      cases equality
      obtain ⟨block, present, rfl⟩ := editBlock_eq_ok carriedOut
      exact .edited present
  | configure settings =>
      cases done
      exact .configured settings

theorem handle_apply (request : Request) :
    (document.handle request : StateM World _) world =
      match (document.perform request : StateM World _) world with
      | (.error failure, after) => ((.error failure, document), after)
      | (.ok (reply, changed), after) => ((.ok reply, changed), after) := by
  rw [handle_eq, ← bind_pure_comp, bind_apply]
  cases (document.perform request : StateM World _) world with
  | mk result after =>
      cases result with
      | error failure => rfl
      | ok parts => rfl

theorem perform_create {name : Text} {block : Block}
    (created : document.create name = .ok (block, next)) (world : World) :
    (document.perform (.create name) : StateM World _) world =
      (.ok (.block block, next), world) := by
  rw [perform, created]
  rfl

theorem perform_remove {name : Text} (removed : document.remove name = .ok next) (world : World) :
    (document.perform (.remove name) : StateM World _) world = (.ok (.done, next), world) := by
  rw [perform, removed]
  rfl

theorem Change.loaded_eq (change : document.Change next) : next.loaded = document.loaded := by
  cases change with
  | kept => rfl
  | created done =>
      obtain ⟨-, -, -, rfl⟩ := create_eq_ok done
      rfl
  | removed done =>
      obtain ⟨-, rfl⟩ := remove_eq_ok done
      rfl
  | edited present => rfl
  | configured settings => rfl

theorem Change.tracks (change : document.Change next) (tracks : document.Tracks) :
    next.Tracks := by
  cases change with
  | kept => exact tracks
  | created done => exact tracks.create done
  | removed done => exact tracks.remove done
  | edited present => exact tracks.put present
  | configured settings => exact ⟨tracks.created, tracks.deleted, tracks.names⟩

end Document

/-- What happens while a document is edited: something is asked of it, or others change the machine,
be it the file, what may be done with it, or anything else. -/
inductive Event where
  | request (request : Request)
  | outside (change : World → World)

structure Session where
  document : Document
  world : World
  /-- The names of the blocks right after the last request that read the file. -/
  lastNames : List Text := []
  /-- Why requests failed, in order. -/
  failures : List Failure := []

namespace Session

def opened (path : Path) (settings : Settings) (world : World) : Session :=
  { document := { path := path, settings := settings }, world := world }

def ask (session : Session) (request : Request) : Session :=
  match (session.document.handle request : StateM World _) session.world with
  | ((.error failure, document), world) =>
      { session with
        document := document
        world := world
        failures := session.failures ++ [failure] }
  | ((.ok _, document), world) =>
      { session with
        document := document
        world := world
        lastNames := if request.reloads then document.outline.names else session.lastNames }

def step (session : Session) : Event → Session
  | .request request => session.ask request
  | .outside change => { session with world := change session.world }

def run (session : Session) (events : List Event) : Session :=
  events.foldl step session

theorem ask_of_perform {session : Session} {request : Request} {reply : Reply} {next : Document}
    {after : World} (done : (session.document.perform request : StateM World _) session.world =
      (.ok (reply, next), after)) :
    session.ask request =
      { session with
        document := next
        world := after
        lastNames := if request.reloads then next.outline.names else session.lastNames } := by
  rw [ask, Document.handle_apply, done]

/-- What is true of a document and kept by every request that is carried out is true of it whatever
is asked of it and whatever others do. -/
theorem document_run (holds : Document → Prop) {session : Session} {events : List Event}
    (kept : ∀ request, .request request ∈ events → ∀ {document next : Document} {world : World}
      {reply : Reply}, holds document →
        ((document.perform request : StateM World _) world).1 = .ok (reply, next) → holds next)
    (start : holds session.document) : holds (session.run events).document := by
  induction events generalizing session with
  | nil => exact start
  | cons event rest inductionHypothesis =>
      apply inductionHypothesis fun request membership =>
        kept request (List.mem_cons_of_mem event membership)
      cases event with
      | outside change => exact start
      | request request =>
          -- A request that fails leaves the document as it was.
          rw [step, ask, Document.handle_apply]
          cases carriedOut : (session.document.perform request : StateM World _) session.world with
          | mk result after =>
              cases result with
              | error failure => exact start
              | ok parts =>
                  exact kept request List.mem_cons_self start (congrArg Prod.fst carriedOut)

/-- Whether the document keeps track of how the names of its blocks differ from those that were found
when its file was last read: it has those that are not to be removed, and those that are to be added. -/
structure Tracks (session : Session) : Prop where
  /-- A block is found under its own name. -/
  keyed : ∀ name block, session.document.outline.find? name = some block → block.name = name
  created : ∀ name ∈ session.document.pending.created,
    name ∈ session.document.outline.names ∧ name ∉ session.lastNames
  deleted : ∀ name ∈ session.document.pending.deleted,
    name ∈ session.lastNames ∧ name ∉ session.document.outline.names
  names : ∀ name, name ∈ session.document.outline.names ↔
    (name ∈ session.lastNames ∧ name ∉ session.document.pending.deleted) ∨
      name ∈ session.document.pending.created

/-- The invariant behind it: what was loaded is what was found last. -/
def Remembers (session : Session) : Prop :=
  session.document.Tracks ∧ session.document.loaded.names = session.lastNames

theorem remembers_opened (path : Path) (settings : Settings) (world : World) :
    (opened path settings world).Remembers := by
  refine ⟨⟨?_, ?_, ?_⟩, rfl⟩
  · simp [opened]
  · simp [opened]
  · simp [opened, Outline.names, Outline.empty]

theorem Remembers.ask {session : Session} (remembers : session.Remembers) (request : Request) :
    (session.ask request).Remembers := by
  unfold Session.ask
  rw [Document.handle_apply]
  cases carriedOut : (session.document.perform request : StateM World _) session.world with
  | mk result after =>
      cases result with
      | error failure => exact remembers
      | ok parts =>
          have change := Document.perform_eq_ok (congrArg Prod.fst carriedOut)
          cases reloads : request.reloads with
          | true =>
              rw [reloads, if_pos rfl] at change
              obtain ⟨lines, equality⟩ := change
              simp only [equality, if_true]
              exact ⟨.withLines session.document lines, rfl⟩
          | false =>
              rw [reloads, if_neg Bool.false_ne_true] at change
              exact ⟨change.tracks remembers.1, (congrArg _ change.loaded_eq).trans remembers.2⟩

theorem Remembers.run {session : Session} (remembers : session.Remembers) (events : List Event) :
    (session.run events).Remembers := by
  induction events generalizing session with
  | nil => exact remembers
  | cons event rest inductionHypothesis =>
      apply inductionHypothesis
      cases event with
      | request request => exact remembers.ask request
      | outside change => exact remembers

theorem Remembers.tracks {session : Session} (remembers : session.Remembers) : session.Tracks := by
  obtain ⟨tracks, known⟩ := remembers
  obtain ⟨created, deleted, names⟩ := tracks
  rw [known] at created deleted names
  refine ⟨?_, ?_, ?_, names⟩
  · intro name block found
    exact (Outline.find?_eq_some_iff.mp found).2
  · intro name new
    exact ⟨(names name).mpr (.inr new), created name new⟩
  · intro name gone
    refine ⟨deleted name gone, ?_⟩
    intro present
    rcases (names name).mp present with ⟨-, kept⟩ | new
    · exact kept gone
    · exact created name new (deleted name gone)

/-- Whatever is asked of a document and whatever others do to its file, it keeps track of its names. -/
theorem tracks_run_opened (path : Path) (settings : Settings) (world : World)
    (events : List Event) : ((opened path settings world).run events).Tracks :=
  ((remembers_opened path settings world).run events).tracks

end Session

end EnumBlocks
