import EnumBlocks.CommandLine.Change
import EnumBlocks.Proofs.EntryRoundTrip
import EnumBlocks.Proofs.OneLine
import EnumBlocks.Proofs.ReadEntries
import EnumBlocks.Proofs.StoredFile

/-!
Entries that are given on a command line, and adding them to a block. Given in two parts they are
the entries of the first part and those of the second. Like the entries that a document is found to
have, they are written and read back as they are if nothing in them can be taken for something else.
-/

namespace EnumBlocks

/-- Whether nothing in an entry can be taken for something else: its name is not the keyword of a
directive, and its value has no brace, no quotation mark and no mark of a comment. -/
structure Entry.Unmistakable (entry : Entry) : Prop where
  notUsing : entry.name ≠ ['u', 's', 'i', 'n', 'g']
  notImport : entry.name ≠ ['i', 'm', 'p', 'o', 'r', 't']
  braceless : Braceless entry.value
  unquoted : quotationMark ∉ entry.value
  noComment : ¬ commentMark <:+: entry.value

instance (entry : Entry) : Decidable entry.Unmistakable :=
  decidable_of_iff (entry.name ≠ ['u', 's', 'i', 'n', 'g'] ∧
      entry.name ≠ ['i', 'm', 'p', 'o', 'r', 't'] ∧ Braceless entry.value ∧
      quotationMark ∉ entry.value ∧ ¬ commentMark <:+: entry.value)
    ⟨fun ⟨notUsing, notImport, braceless, unquoted, noComment⟩ =>
        ⟨notUsing, notImport, braceless, unquoted, noComment⟩,
      fun ⟨notUsing, notImport, braceless, unquoted, noComment⟩ =>
        ⟨notUsing, notImport, braceless, unquoted, noComment⟩⟩

/-- An entry that was read from a line is written and read back as it is if nothing in it can be
taken for something else. -/
theorem Entry.IsReadFrom.clean {entry : Entry} {text : Text} (readFrom : entry.IsReadFrom text)
    (oneLine : IsOneLine text) (unmistakable : entry.Unmistakable) : entry.Clean := by
  obtain ⟨part, within, read⟩ := readFrom
  have partLine : IsOneLine part := oneLine.subset within
  obtain ⟨named, -⟩ := parse?_eq_some read
  obtain ⟨noComma, -, commentLine⟩ := parse?_eq_some_of_oneLine partLine.1 read
  obtain ⟨value, comment⟩ := subset_of_parse? read
  obtain ⟨notUsing, notImport, braceless, unquoted, noComment⟩ := unmistakable
  exact ⟨⟨named, notUsing, notImport, noComma, braceless, unquoted, noComment, commentLine⟩,
    partLine.subset value, partLine.subset comment⟩

namespace CommandLine

theorem readSpecsFrom_eq_ok {specs : List Text} {before entries : List Entry}
    (read : readSpecsFrom before specs = .ok entries) :
    ∃ given, specs.mapM readSpec? = some given ∧ entries = before ++ given := by
  induction specs generalizing before with
  | nil =>
      cases read
      exact ⟨[], rfl, (List.append_nil _).symm⟩
  | cons spec rest inductionHypothesis =>
      rw [readSpecsFrom] at read
      cases own : readSpec? spec with
      | none =>
          rw [own] at read
          cases read
      | some entry =>
          rw [own] at read
          simp only at read
          split at read
          · cases read
          · obtain ⟨given, others, rfl⟩ := inductionHypothesis read
            refine ⟨entry :: given, ?_, List.append_cons _ _ _ |>.symm⟩
            rw [List.mapM_cons, own, others]
            rfl

theorem readGiven_map_some {specs : List Text} {entries : List Entry}
    (read : readGiven (specs.map some) = .ok entries) : specs.mapM readSpec? = some entries := by
  have given : ((specs.map some).takeWhile Option.isSome).filterMap id = specs := by
    rw [List.takeWhile_eq_self_iff.mpr (by simp), List.filterMap_map, Function.id_comp,
      List.filterMap_some]
  rw [readGiven, given, readSpecs] at read
  split at read
  · cases read
  · rename_i own found
    rw [if_neg (by simp)] at read
    cases read
    obtain ⟨given, all, rfl⟩ := readSpecsFrom_eq_ok found
    exact all

theorem exists_parse?_of_mem_given {specs : List Text} {given : List Entry}
    (read : specs.mapM readSpec? = some given) :
    ∀ entry ∈ given, ∃ spec ∈ specs, Entry.parse? spec = some entry := by
  intro entry membership
  obtain ⟨spec, present, found⟩ := exists_of_mem_mapM read entry membership
  exact ⟨spec, present, (Option.filter_eq_some_iff.mp found).1⟩

theorem carryOut_append_eq_ok {document changed : Document} {name : Text} {specs : List Text}
    (done : (Change.append name).carryOut document (specs.map some) = .ok changed) :
    ∃ block given, document.outline.find? name = some block ∧
      specs.mapM readSpec? = some given ∧
      changed = { document with outline := document.outline.put (block.append given) } := by
  unfold Change.carryOut at done
  split at done
  · cases done
  · rename_i given read
    simp only [Change.applyTo, appendTo] at done
    split at done
    · cases done
    · rename_i block found
      split at done
      · cases done
      · have present := Outline.mem_names_iff.mpr ⟨block, found⟩
        obtain ⟨-, rfl⟩ := Outline.find?_eq_some_iff.mp found
        rw [Document.replaceEntries_eq present] at done
        cases done
        exact ⟨block, given, found, readGiven_map_some read, rfl⟩

end CommandLine

end EnumBlocks
