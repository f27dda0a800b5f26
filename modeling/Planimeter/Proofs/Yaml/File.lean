import Planimeter.Yaml.Read
/-!
# Texts and files

What it takes for a text to be read as a table, and a file as its text.
-/
namespace Planimeter.Yaml

/-- A text is read if it has no forbidden character, its first document is a table and ends well,
and nothing follows it. -/
theorem read_eq_ok_iff {text : String} {table : List (String × Value)} :
    read text = .ok table ↔ firstForbidden? 0 text.toList = none ∧
      let stream := Stream.ofSource (.ofText text.toList)
      (∃ followed, stream.first.table.run 0 = .ok (table, followed)) ∧
        stream.first.ended = none ∧ stream.hasMore = false := by
  unfold read
  dsimp only
  cases firstForbidden? 0 text.toList with
  | some offset => simp [throw, throwThe, MonadExceptOf.throw, bind, Except.bind]
  | none =>
    generalize Stream.ofSource (.ofText text.toList) = stream
    cases htable : stream.first.table.run 0 with
    | error e => simp [bind, Except.bind]
    | ok found =>
      obtain ⟨found, followed⟩ := found
      cases hended : stream.first.ended <;> cases hmore : stream.hasMore <;>
        simp [throw, throwThe, MonadExceptOf.throw, bind, Except.bind, pure, Except.pure]

@[simp] theorem fromUTF8?_toUTF8 (text : String) : String.fromUTF8? text.toUTF8 = some text := by
  have hvalid : text.toUTF8.IsValidUTF8 := text.isValidUTF8
  simp only [String.fromUTF8?, hvalid]
  rfl

/-- A file that holds the bytes of a text is read as the text. -/
@[simp] theorem readFile_toUTF8 (text : String) : readFile text.toUTF8 = read text := by
  rw [readFile, fromUTF8?_toUTF8]

end Planimeter.Yaml
