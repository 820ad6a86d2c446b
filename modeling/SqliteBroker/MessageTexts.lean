import SqliteBroker.Frames

/-!
The JSON texts of some requests and responses, as serde_json writes them, and their sizes.
The parts that differ from message to message are parameters.
-/
namespace SqliteBroker.MessageTexts

open Utf8 Frames

def ascii (text : String) : Bytes := encode text.toList

def execText (sql : Bytes) : Bytes :=
  ascii "\x7b\"op\":\"exec\",\"sql\":\"" ++ sql ++ ascii "\",\"params\":[]\x7d"

/-- An Exec that binds one parameter, whose value has this text. -/
def bindText (sql value : Bytes) : Bytes :=
  ascii "\x7b\"op\":\"exec\",\"sql\":\"" ++ sql ++
    ascii "\",\"params\":[\x7b\"index\":1,\"value\":" ++ value ++ ascii "\x7d]\x7d"

def prepareText (sql : Bytes) : Bytes :=
  ascii "\x7b\"op\":\"prepare\",\"sql\":\"" ++ sql ++ ascii "\"\x7d"

/-- A response that reports no changed row. The parts are the fields up to `code`, the
arrays of columns and of rows, the last row id, `autocommit` and the change count. -/
def responseText (outcome columns rows rowid autocommit total : Bytes) : Bytes :=
  ascii "\x7b" ++ outcome ++ ascii ",\"columns\":" ++ columns ++ ascii ",\"rows\":" ++ rows ++
    ascii ",\"changes\":0,\"last_insert_rowid\":" ++ rowid ++ ascii ",\"autocommit\":" ++
    autocommit ++ ascii ",\"tail\":0,\"param_count\":0,\"param_names\":[],\"decltypes\":[]" ++
    ascii ",\"total_changes\":" ++ total ++ ascii ",\"empty\":false\x7d"

def okText : Bytes := ascii "\"ok\":true,\"message\":\"\",\"code\":0"

theorem length_ascii (text : String) : (ascii text).length = text.utf8ByteSize :=
  length_encode_toList text

/-- A text that is there and fits a frame. -/
theorem sized_of_length {text : Bytes} {n : ℕ} (h : text.length = n) (hpos : 0 < n)
    (hshort : n ≤ 2048) : text ≠ [] ∧ text.length ≤ frameLimit := by
  subst h
  exact ⟨List.ne_nil_of_length_pos hpos, Nat.le_trans hshort (by decide)⟩

theorem exec_sized {sql : Bytes} (h : sql.length ≤ 1024) :
    execText sql ≠ [] ∧ (execText sql).length ≤ frameLimit := by
  have hlen : (execText sql).length = 20 + sql.length + 14 := by
    simp only [execText, List.length_append, length_ascii]
    rfl
  exact sized_of_length hlen (by omega) (by omega)

theorem bind_sized {sql value : Bytes} (h : sql.length + value.length ≤ 1024) :
    bindText sql value ≠ [] ∧ (bindText sql value).length ≤ frameLimit := by
  have hlen : (bindText sql value).length = 20 + sql.length + 31 + value.length + 3 := by
    simp only [bindText, List.length_append, length_ascii]
    rfl
  exact sized_of_length hlen (by omega) (by omega)

theorem prepare_sized {sql : Bytes} (h : sql.length ≤ 1024) :
    prepareText sql ≠ [] ∧ (prepareText sql).length ≤ frameLimit := by
  have hlen : (prepareText sql).length = 23 + sql.length + 2 := by
    simp only [prepareText, List.length_append, length_ascii]
    rfl
  exact sized_of_length hlen (by omega) (by omega)

theorem response_sized {outcome columns rows rowid autocommit total : Bytes}
    (h : outcome.length + columns.length + rows.length + rowid.length + autocommit.length +
      total.length ≤ 1024) :
    responseText outcome columns rows rowid autocommit total ≠ [] ∧
      (responseText outcome columns rows rowid autocommit total).length ≤ frameLimit := by
  have hlen : (responseText outcome columns rows rowid autocommit total).length =
      1 + outcome.length + 11 + columns.length + 8 + rows.length + 33 + rowid.length + 14 +
        autocommit.length + 57 + 17 + total.length + 15 := by
    simp only [responseText, List.length_append, length_ascii]
    rfl
  exact sized_of_length hlen (by omega) (by omega)

end SqliteBroker.MessageTexts
