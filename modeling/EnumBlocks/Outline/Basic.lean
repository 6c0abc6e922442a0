import EnumBlocks.Block.Basic

/-!
The outline of a document: its enums in order, no two of one name.
-/

namespace EnumBlocks

/-- Put a block in the place of every block that has its name. -/
def replaceBlock (block : Block) (blocks : List Block) : List Block :=
  blocks.map fun old => if old.name = block.name then block else old

theorem map_name_replaceBlock (block : Block) (blocks : List Block) :
    (replaceBlock block blocks).map Block.name = blocks.map Block.name := by
  rw [replaceBlock, List.map_map]
  refine List.map_congr_left fun old _ => ?_
  by_cases named : old.name = block.name <;> simp [named]

structure Outline where
  blocks : List Block
  /-- A name belongs to one block. -/
  distinct : (blocks.map Block.name).Nodup
  deriving DecidableEq, Repr

namespace Outline

def empty : Outline := ⟨[], by simp⟩

instance : Inhabited Outline := ⟨empty⟩

def names (outline : Outline) : List Text :=
  outline.blocks.map Block.name

def size (outline : Outline) : Nat :=
  outline.blocks.length

def find? (outline : Outline) (name : Text) : Option Block :=
  outline.blocks.find? (·.name == name)

def contains (outline : Outline) (name : Text) : Bool :=
  decide (name ∈ outline.names)

/-- Put a block in the place of the one that has its name, or at the end. -/
def put (outline : Outline) (block : Block) : Outline :=
  if present : block.name ∈ outline.names then
    { blocks := replaceBlock block outline.blocks
      distinct := by
        rw [map_name_replaceBlock]
        exact outline.distinct }
  else
    { blocks := outline.blocks ++ [block]
      distinct := by
        rw [List.map_append, List.nodup_append]
        refine ⟨outline.distinct, by simp, ?_⟩
        rintro name found other added rfl
        simp only [List.map_cons, List.map_nil, List.mem_singleton] at added
        exact present (added ▸ found) }

def erase (outline : Outline) (name : Text) : Outline :=
  { blocks := outline.blocks.filter (·.name ≠ name)
    distinct := outline.distinct.sublist (List.filter_sublist.map Block.name) }

/-- The outline of blocks given one after the other: of two with one name the later wins, in the
place of the earlier. -/
def ofBlocks (blocks : List Block) : Outline :=
  blocks.foldl put empty

/-- Whether two outlines hold the same blocks, in whatever order. -/
def sameBlocks (outline other : Outline) : Bool :=
  decide (outline.size = other.size) &&
    outline.blocks.all fun block => other.find? block.name == some block

theorem names_put (outline : Outline) (block : Block) :
    (outline.put block).names =
      if block.name ∈ outline.names then outline.names else outline.names ++ [block.name] := by
  unfold put
  split
  · exact map_name_replaceBlock block outline.blocks
  · simp [names]

@[simp]
theorem mem_names_put {outline : Outline} {block : Block} {name : Text} :
    name ∈ (outline.put block).names ↔ name ∈ outline.names ∨ name = block.name := by
  rw [names_put]
  split
  · rename_i present
    exact ⟨.inl, fun found => found.elim id fun same => same ▸ present⟩
  · simp

theorem names_erase (outline : Outline) (name : Text) :
    (outline.erase name).names = outline.names.filter (· ≠ name) := by
  simp only [erase, names, List.filter_map]
  rfl

@[simp]
theorem mem_names_erase {outline : Outline} {name other : Text} :
    other ∈ (outline.erase name).names ↔ other ∈ outline.names ∧ other ≠ name := by
  simp [names_erase]

end Outline

end EnumBlocks
