import DocHarvest.Proofs.Json.Grammar

/-! A JSON value is written as a document that stands for the tree of the value, whatever the layout.
No other value has this tree. -/

namespace DocHarvest.Json

mutual

def tree : Json → Tree
  | null => .scalar .null
  | bool value => .scalar (.bool value)
  | text value => .scalar (.text value)
  | array items => .array (trees items)
  | object members => .object (memberTrees members)

def trees : List Json → List Tree
  | [] => []
  | x :: xs => x.tree :: trees xs

def memberTree : String × Json → String × Tree
  | (key, value) => (key, value.tree)

def memberTrees : List (String × Json) → List (String × Tree)
  | [] => []
  | m :: ms => memberTree m :: memberTrees ms

end

mutual

lemma eq_of_tree : ∀ {j j' : Json}, j.tree = j'.tree → j = j'
  | null, null, _ => rfl
  | bool _, bool _, h => by cases h; rfl
  | text _, text _, h => by cases h; rfl
  | array _, array _, h => congrArg array (eq_of_trees (Tree.array.inj h))
  | object _, object _, h => congrArg object (eq_of_memberTrees (Tree.object.inj h))

lemma eq_of_trees : ∀ {xs ys : List Json}, trees xs = trees ys → xs = ys
  | [], [], _ => rfl
  | x :: xs, y :: ys, h => by
    obtain ⟨hx, hxs⟩ := List.cons.inj h
    rw [eq_of_tree hx, eq_of_trees hxs]

lemma eq_of_memberTrees :
    ∀ {ms ns : List (String × Json)}, memberTrees ms = memberTrees ns → ms = ns
  | [], [], _ => rfl
  | (key, x) :: ms, (key', y) :: ns, h => by
    obtain ⟨hm, hms⟩ := List.cons.inj h
    obtain ⟨rfl, hx⟩ := Prod.mk.inj hm
    rw [eq_of_tree hx, eq_of_memberTrees hms]

end

/-- Nothing but spaces is added between the tokens. -/
structure Style.Plain (st : Style) : Prop where
  lineBreak : ∀ depth, ∀ c ∈ st.lineBreak depth, isSpace c
  colon : ∃ spaces, st.colon = ':' :: spaces ∧ ∀ c ∈ spaces, isSpace c

lemma Style.plain_compact : Style.compact.Plain :=
  ⟨fun _ _ hc => (List.not_mem_nil hc).elim, [], rfl, fun _ hc => (List.not_mem_nil hc).elim⟩

lemma Style.plain_indented : Style.indented.Plain where
  lineBreak := by
    intro depth c hc
    rcases List.mem_cons.1 hc with rfl | hc
    · rfl
    · rw [List.eq_of_mem_replicate hc]
      rfl
  colon := ⟨[' '], rfl, List.all_eq_true.1 rfl⟩

lemma Spells.spaces {w s : List Char} {ts : List Token} (hw : ∀ c ∈ w, isSpace c)
    (h : Spells s ts) : Spells (w ++ s) ts := by
  induction w with
  | nil => exact h
  | cons c w ih =>
    rw [List.forall_mem_cons] at hw
    exact (ih hw.2).space hw.1

lemma Spells.mark {c : Char} {t : Token} {s : List Char} {ts : List Token} (h : Spells s ts)
    (hc : (c, t) ∈ marks) : Spells (c :: s) (t :: ts) :=
  Spells.token (Lexeme.mark hc) h

lemma Spells.word {w s : List Char} {v : Scalar} {ts : List Token} (h : Spells s ts)
    (hw : (w, v) ∈ words) : Spells (w ++ s) (.scalar v :: ts) :=
  Spells.token (Lexeme.word hw) h

lemma unit?_of_lt {n : Nat} (h : n < 0x20) :
    unit? ['0', '0', Nat.digitChar (n / 16), Nat.digitChar (n % 16)] = some n := by
  revert n
  decide

lemma quotes_escapeChar (c : Char) {s t : List Char} (h : Quotes s t) :
    Quotes (escapeChar c ++ s) (c :: t) := by
  have short : ∀ e, (e, c) ∈ shortEscapes → Quotes ('\\' :: e :: s) (c :: t) := fun e he =>
    Quotes.escape (Escape.short he) h
  rw [escapeChar]
  split_ifs with h1 h2 h3 h4 h5 h6 h7 h8
  · exact short '"' (by rw [beq_iff_eq.1 h1]; decide)
  · exact short '\\' (by rw [beq_iff_eq.1 h2]; decide)
  · exact short 'b' (by rw [beq_iff_eq.1 h3]; decide)
  · exact short 'f' (by rw [beq_iff_eq.1 h4]; decide)
  · exact short 'n' (by rw [beq_iff_eq.1 h5]; decide)
  · exact short 'r' (by rw [beq_iff_eq.1 h6]; decide)
  · exact short 't' (by rw [beq_iff_eq.1 h7]; decide)
  · have he := Escape.unit (unit?_of_lt h8) (Or.inl (by omega))
    rw [Char.ofNat_toNat] at he
    exact Quotes.escape he h
  · apply Quotes.plain _ h
    simp only [isPlain, Bool.and_eq_true, decide_eq_true_eq, bne_iff_ne, ne_eq]
    exact ⟨⟨Nat.le_of_not_lt h8, by simpa using h1⟩, by simpa using h2⟩

lemma quotes_flatMap_escapeChar (s : List Char) : Quotes (s.flatMap escapeChar) s := by
  induction s with
  | nil => exact Quotes.nil
  | cons c s ih =>
    rw [List.flatMap_cons]
    exact quotes_escapeChar c ih

lemma Spells.quote (v : String) {s : List Char} {ts : List Token} (h : Spells s ts) :
    Spells (quote v ++ s) (.scalar (.text v) :: ts) := by
  have hl : Lexeme s (Json.quote v) (.scalar (.text (String.ofList v.toList))) :=
    Lexeme.text (quotes_flatMap_escapeChar v.toList)
  rw [String.ofList_toList] at hl
  exact Spells.token hl h

section Write

variable {st : Style} (hst : st.Plain)
include hst

mutual

lemma spells_write (depth : Nat) {s : List Char} {ts : List Token} (h : Spells s ts) :
    ∀ j : Json, Spells (write st depth j ++ s) (j.tree.tokens ++ ts)
  | null => h.word (w := "null".toList) (by decide)
  | bool true => h.word (w := "true".toList) (by decide)
  | bool false => h.word (w := "false".toList) (by decide)
  | text value => h.quote value
  | array [] => by
    have he := h.mark (by decide : (']', .closeArray) ∈ marks)
    exact he.mark (by decide : ('[', .openArray) ∈ marks)
  | array (x :: xs) => by
    have hx := spells_write (depth + 1) (spells_writeItems depth h xs) x
    have ha := (hx.spaces (hst.lineBreak (depth + 1))).mark (by decide : ('[', .openArray) ∈ marks)
    simpa only [write, tree, trees, Tree.tokens, List.cons_append, List.append_assoc, List.nil_append]
      using ha
  | object [] => by
    have he := h.mark (by decide : ('}', .closeObject) ∈ marks)
    exact he.mark (by decide : ('{', .openObject) ∈ marks)
  | object (m :: ms) => by
    have hm := spells_writeMember (depth + 1) (spells_writeMembers depth h ms) m
    have ho := (hm.spaces (hst.lineBreak (depth + 1))).mark (by decide : ('{', .openObject) ∈ marks)
    simpa only [write, tree, memberTrees, Tree.tokens, List.cons_append, List.append_assoc,
      List.nil_append] using ho

lemma spells_writeItems (depth : Nat) {s : List Char} {ts : List Token} (h : Spells s ts) :
    ∀ xs : List Json, Spells (writeItems st (depth + 1) xs ++ (st.lineBreak depth ++ ']' :: s))
      (Tree.itemTokens (trees xs) ++ ts)
  | [] => by
    have he := h.mark (by decide : (']', .closeArray) ∈ marks)
    have hs := he.spaces (hst.lineBreak depth)
    exact hs
  | x :: xs => by
    have hx := spells_write (depth + 1) (spells_writeItems depth h xs) x
    have hc := (hx.spaces (hst.lineBreak (depth + 1))).mark (by decide : (',', .comma) ∈ marks)
    simpa only [writeItems, trees, Tree.itemTokens, List.cons_append, List.append_assoc] using hc

lemma spells_writeMember (depth : Nat) {s : List Char} {ts : List Token} (h : Spells s ts) :
    ∀ m : String × Json,
      Spells (writeMember st depth m ++ s) (Tree.memberTokens (memberTree m) ++ ts)
  | (key, value) => by
    obtain ⟨w, hw, hs⟩ := hst.colon
    have hv := ((spells_write depth h value).spaces hs).mark (by decide : (':', .colon) ∈ marks)
    simpa only [writeMember, memberTree, Tree.memberTokens, hw, List.cons_append,
      List.append_assoc] using hv.quote key

lemma spells_writeMembers (depth : Nat) {s : List Char} {ts : List Token} (h : Spells s ts) :
    ∀ ms : List (String × Json),
      Spells (writeMembers st (depth + 1) ms ++ (st.lineBreak depth ++ '}' :: s))
        (Tree.membersTokens (memberTrees ms) ++ ts)
  | [] => by
    have he := h.mark (by decide : ('}', .closeObject) ∈ marks)
    have hs := he.spaces (hst.lineBreak depth)
    exact hs
  | m :: ms => by
    have hm := spells_writeMember (depth + 1) (spells_writeMembers depth h ms) m
    have hc := (hm.spaces (hst.lineBreak (depth + 1))).mark (by decide : (',', .comma) ∈ marks)
    simpa only [writeMembers, memberTrees, Tree.membersTokens, List.cons_append,
      List.append_assoc] using hc

end

end Write

lemma document_render {st : Style} (hst : st.Plain) (j : Json) : Document (j.render st) j.tree := by
  have h := spells_write hst 0 Spells.nil j
  rw [List.append_nil, List.append_nil] at h
  rw [Document, render, String.toList_ofList]
  exact h

end DocHarvest.Json
