import EnumBlocks.Proofs.Storage

/-!
What reporting and writing leave alone on a machine in memory. Reporting changes the log file and
nothing else, writing changes the file it goes to, and neither has a part in where a path leads.
-/

namespace EnumBlocks

namespace FileTree

variable (tree : FileTree)

theorem lookup_replaced (nodes : List (Location × Node)) (location other : Location)
    (node : Node) :
    (nodes.map fun old => if old.1 = location then (location, node) else old).lookup other =
      (nodes.lookup other).map fun old => if other = location then node else old := by
  induction nodes with
  | nil => rfl
  | cons first rest inductionHypothesis =>
      rcases first with ⟨place, old⟩
      have first : (if place = location then (location, node) else (place, old)) =
          (place, if place = location then node else old) := by
        split
        · rename_i here
          rw [here]
        · rfl
      rw [List.map_cons, first, List.lookup_cons, List.lookup_cons, inductionHypothesis]
      cases same : other == place with
      | true =>
          rw [beq_iff_eq.mp same]
          rfl
      | false => rfl

theorem node?_put (location other : Location) (node : Node) :
    (tree.put location node).node? other =
      if other = location then some node else tree.node? other := by
  unfold put node?
  simp only
  split
  · rename_i present
    obtain ⟨old, found⟩ := Option.isSome_iff_exists.mp present
    rw [lookup_replaced]
    by_cases same : other = location
    · subst same
      simp [found]
    · simp [same]
  · rename_i absent
    rw [Option.not_isSome_iff_eq_none] at absent
    rw [List.lookup_append]
    by_cases same : other = location
    · subst same
      simp [absent]
    · have other : (other == location) = false := beq_eq_false_iff_ne.mpr same
      rw [if_neg same, List.lookup_cons, other]
      exact Option.or_none

theorem update_cases (location : Location) (change : Bytes → Bytes) :
    tree.update location change = tree ∨
      ∃ access content, tree.node? location = some (.file access content) ∧
        tree.update location change = tree.put location (.file access (change content)) := by
  unfold update
  split
  · rename_i access content found
    exact .inr ⟨access, content, found, rfl⟩
  · exact .inl rfl

theorem node?_update_of_ne {location other : Location} (different : other ≠ location)
    (change : Bytes → Bytes) : (tree.update location change).node? other = tree.node? other := by
  rcases tree.update_cases location change with same | ⟨access, content, -, changed⟩
  · rw [same]
  · rw [changed, node?_put, if_neg different]

variable {tree} {location : Location} {access : Access} {content : Bytes}
  (found : tree.node? location = some (.file access content)) (change : Bytes → Bytes)

include found in
theorem node?_update :
    (tree.update location change).node? location = some (.file access (change content)) := by
  rw [update, found]
  simp only [node?_put, if_true]

/-- What is in the files has no part in where a path leads. -/
theorem walk_update (path : Path) (here : Location) (names : List Text) :
    (tree.update location change).walk path here names = tree.walk path here names := by
  rcases tree.update_cases location change with same | ⟨access, content, found, -⟩
  · rw [same]
  -- A path leads through directories only, and what is changed is a file.
  · induction names generalizing here with
    | nil => rfl
    | cons name rest inductionHypothesis =>
        by_cases same : here = location
        · subst same
          simp only [walk, found, node?_update found]
        · simp only [walk, inductionHypothesis, node?_update_of_ne tree same]

theorem resolve_update (path : Path) :
    (tree.update location change).resolve path = tree.resolve path := by
  have origin : (tree.update location change).origin path = tree.origin path := by
    unfold update
    split <;> rfl
  unfold resolve
  rw [origin, walk_update]

end FileTree

/-- Whether two machines differ in nothing but what is in the log file and what was passed on. -/
structure World.AlikeOffLog (world other : World) : Prop where
  limit : other.limit = world.limit
  logFile : other.logFile = world.logFile
  resolve : ∀ path, other.tree.resolve path = world.tree.resolve path
  node : ∀ location, world.logFile ≠ some location →
    other.tree.node? location = world.tree.node? location

namespace World.AlikeOffLog

theorem refl (world : World) : world.AlikeOffLog world :=
  ⟨rfl, rfl, fun _ => rfl, fun _ _ => rfl⟩

theorem trans {first second third : World} (front : first.AlikeOffLog second)
    (back : second.AlikeOffLog third) : first.AlikeOffLog third where
  limit := back.limit.trans front.limit
  logFile := back.logFile.trans front.logFile
  resolve path := (back.resolve path).trans (front.resolve path)
  node location unlogged :=
    (back.node location (front.logFile ▸ unlogged)).trans (front.node location unlogged)

theorem report (world : World) (notice : Notice) : world.AlikeOffLog (world.report notice) := by
  unfold World.report
  split
  · exact refl world
  · cases log : world.logFile with
    | none => exact ⟨rfl, log.symm, fun _ => rfl, fun _ _ => rfl⟩
    | some place =>
        refine ⟨rfl, log.symm, fun path => FileTree.resolve_update _ path, ?_⟩
        intro location unlogged
        have different : location ≠ place := fun same =>
          unlogged (log.trans (congrArg some same.symm))
        exact FileTree.node?_update_of_ne _ different _

theorem reportAll (world : World) (notices : List Notice) :
    world.AlikeOffLog (world.reportAll notices) := by
  induction notices generalizing world with
  | nil => exact refl world
  | cons notice rest inductionHypothesis =>
      exact (report world notice).trans (inductionHypothesis (world.report notice))

/-- Machines that are alike read the same at a path that does not lead to the log file. -/
theorem textFile_eq {world other : World} (alike : world.AlikeOffLog other) {path : Path}
    {location : Location} (resolves : world.tree.resolve path = .ok location)
    (unlogged : world.logFile ≠ some location) : other.textFile path = world.textFile path := by
  have same : other.tree.readFile path = world.tree.readFile path := by
    rw [FileTree.readFile, FileTree.readFile, alike.resolve, resolves]
    simp only [alike.node location unlogged]
  rw [World.textFile, World.textFile, same]

end World.AlikeOffLog

section Limit

variable {world : World} {content : Bytes}

theorem cut_eq_of_fits (fits : world.fits content = true) : world.cut content = content := by
  unfold World.fits at fits
  unfold World.cut
  cases limited : world.limit with
  | none => rfl
  | some limit =>
      rw [limited, Option.all_some, decide_eq_true_eq] at fits
      exact List.take_of_length_le fits

theorem exists_limit_of_not_fits (beyond : world.fits content = false) :
    ∃ limit, world.limit = some limit ∧ limit < content.length ∧
      world.cut content = content.take limit := by
  unfold World.fits at beyond
  unfold World.cut
  cases limited : world.limit with
  | none => simp [limited] at beyond
  | some limit =>
      rw [limited, Option.all_some, decide_eq_false_iff_not, Nat.not_le] at beyond
      exact ⟨limit, rfl, beyond, rfl⟩

end Limit

section File

variable {world : World} {path : Path} {location : Location}
  (resolves : world.tree.resolve path = .ok location) {access : Access} {content : Bytes}
  (found : world.tree.node? location = some (.file access content))

include resolves found in
theorem readFile_of_file (readable : access.read = true) :
    world.tree.readFile path = .ok content := by
  rw [FileTree.readFile, resolves]
  simp only [found, readable, if_true]

include resolves found in
theorem textFile_of_file (readable : access.read = true) {file : TextFile}
    (text : TextFile.ofBytes content = .ok file) : world.textFile path = .ok file := by
  rw [World.textFile, readFile_of_file resolves found readable]
  simp only [text]

include resolves found in
theorem write_of_file (writable : access.write = true) (written : Bytes) :
    world.write path written =
      (if world.fits written then .ok () else .error .tooLarge,
        { world with tree := world.tree.update location fun _ => world.cut written }) := by
  rw [World.write, FileTree.openFile, resolves]
  simp only [found, writable, if_true, Option.some.injEq, reduceCtorEq, false_or]

include resolves found in
theorem write_of_denied (denied : access.write = false) (written : Bytes) :
    world.write path written = (.error (.denied path), world) := by
  rw [World.write, FileTree.openFile, resolves]
  simp [found, denied]

include resolves found in
/-- What is written to a file without a failure is there as a whole. -/
theorem write_eq_ok {written : Bytes} {after : World}
    (done : world.write path written = (.ok (), after)) :
    after = { world with tree := world.tree.update location fun _ => written } := by
  cases writable : access.write with
  | false =>
      rw [write_of_denied resolves found writable] at done
      cases done
  | true =>
      rw [write_of_file resolves found writable] at done
      cases fits : world.fits written with
      | false => simp [fits] at done
      | true =>
          rw [fits, if_pos rfl, cut_eq_of_fits fits] at done
          exact (Prod.mk.inj done).2.symm

end File

end EnumBlocks
