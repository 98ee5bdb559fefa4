import DocHarvest.Proofs.Format
import DocHarvest.Proofs.Text.Lines

/-! A value without indentation stands on one line, as every line break inside it is escaped. So the
records can be told from the lines too. -/

namespace DocHarvest

namespace Text

lemma splitOn_lines {ls : List (List Char)} (h : ∀ l ∈ ls, '\n' ∉ l) :
    (ls.flatMap (· ++ ['\n'])).splitOn '\n' = ls ++ [[]] := by
  induction ls with
  | nil => rfl
  | cons l ls ih =>
    rw [List.forall_mem_cons] at h
    rw [List.flatMap_cons, List.append_assoc, List.singleton_append, List.splitOn_append_cons_self,
      List.splitOn_eq_singleton h.1, ih h.2]
    rfl

end Text

namespace Json

lemma newline_notMem_escapeChar (c : Char) : '\n' ∉ escapeChar c := by
  have hd : ∀ n < 16, '\n' ≠ Nat.digitChar n := by decide
  rw [escapeChar]
  split_ifs with h1 h2 h3 h4 h5 h6 h7 h8
  iterate 7 · decide
  · have hu := hd (c.toNat / 16) (by omega)
    have hl := hd (c.toNat % 16) (by omega)
    simp [hu, hl]
  · rw [List.mem_singleton]
    rintro rfl
    exact h5 rfl

lemma newline_notMem_quote (s : String) : '\n' ∉ quote s := by
  simp [quote, newline_notMem_escapeChar]

@[simp] lemma lineBreak_compact (depth : Nat) : Style.compact.lineBreak depth = [] := rfl

@[simp] lemma colon_compact : Style.compact.colon = [':'] := rfl

mutual

lemma newline_notMem_write (depth : Nat) : ∀ j : Json, '\n' ∉ write .compact depth j
  | null => by simp [write]
  | bool true => by simp [write]
  | bool false => by simp [write]
  | text value => newline_notMem_quote value
  | array [] => by simp [write]
  | array (x :: xs) => by
    have hx := newline_notMem_write (depth + 1) x
    have hxs := newline_notMem_writeItems (depth + 1) xs
    simp [write, hx, hxs]
  | object [] => by simp [write]
  | object (m :: ms) => by
    have hm := newline_notMem_writeMember (depth + 1) m
    have hms := newline_notMem_writeMembers (depth + 1) ms
    simp [write, hm, hms]

lemma newline_notMem_writeItems (depth : Nat) :
    ∀ xs : List Json, '\n' ∉ writeItems .compact depth xs
  | [] => List.not_mem_nil
  | x :: xs => by
    have hx := newline_notMem_write depth x
    have hxs := newline_notMem_writeItems depth xs
    simp [writeItems, hx, hxs]

lemma newline_notMem_writeMember (depth : Nat) :
    ∀ m : String × Json, '\n' ∉ writeMember .compact depth m
  | (key, value) => by
    have hv := newline_notMem_write depth value
    simp [writeMember, newline_notMem_quote, hv]

lemma newline_notMem_writeMembers (depth : Nat) :
    ∀ ms : List (String × Json), '\n' ∉ writeMembers .compact depth ms
  | [] => List.not_mem_nil
  | m :: ms => by
    have hm := newline_notMem_writeMember depth m
    have hms := newline_notMem_writeMembers depth ms
    simp [writeMembers, hm, hms]

end

end Json

namespace Format

def line (r : Record) : List Char :=
  r.toJson.write .compact 0

lemma newline_notMem_line (r : Record) : '\n' ∉ line r :=
  Json.newline_notMem_write 0 r.toJson

lemma line_injective : Function.Injective line := by
  intro r r' h
  have ht : r.toJson.render .compact = r'.toJson.render .compact := congrArg String.ofList h
  have hd := Json.document_render Json.Style.plain_compact r.toJson
  have hd' := Json.document_render Json.Style.plain_compact r'.toJson
  rw [ht] at hd
  exact Record.toJson_injective (Json.eq_of_tree (hd.unique hd'))

lemma toList_render_lines (records : List Record) :
    (lines.render records).toList = (records.map line).flatMap (· ++ ['\n']) := by
  simp [render, line, Json.render, List.flatMap_map]

lemma splitOn_render_lines (records : List Record) :
    (lines.render records).toList.splitOn '\n' = records.map line ++ [[]] := by
  rw [toList_render_lines]
  apply Text.splitOn_lines
  simpa using fun r _ => newline_notMem_line r

/-- In either format a text tells the records that it was written for. -/
lemma render_injective (format : Format) : Function.Injective format.render := by
  intro records records' h
  cases format with
  | array pretty => exact eq_of_render h
  | lines =>
    have hs := splitOn_render_lines records
    rw [h, splitOn_render_lines, List.append_left_inj] at hs
    exact (List.map_injective_iff.2 line_injective hs).symm

end Format

end DocHarvest
