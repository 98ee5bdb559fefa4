import DocHarvest.Proofs.Json.Reading

/-! A reader of documents: a machine that puts the tree together from the tokens, on a stack of the
arrays and objects that are still open. It reads a tree just from the documents that stand for it. -/

namespace DocHarvest.Json

/-- An array or object that is still open, with the parts it has so far. -/
inductive Frame where
  | items (done : List Tree)
  | members (done : List (String × Tree)) (key : String)

mutual

/-- The tree that the tokens complete when a value comes next. -/
def value? : List Token → List Frame → Option Tree
  | .scalar v :: ts, stack => done? ts (.scalar v) stack
  | .openArray :: ts, stack => value? ts (.items [] :: stack)
  | .closeArray :: ts, .items [] :: stack => done? ts (.array []) stack
  | .openObject :: .closeObject :: ts, stack => done? ts (.object []) stack
  | .openObject :: .scalar (.text key) :: .colon :: ts, stack => value? ts (.members [] key :: stack)
  | _, _ => none

/-- The tree that the tokens complete when a value has just been read. -/
def done? : List Token → Tree → List Frame → Option Tree
  | [], t, [] => some t
  | .comma :: ts, t, .items done :: stack => value? ts (.items (done ++ [t]) :: stack)
  | .comma :: .scalar (.text key') :: .colon :: ts, t, .members done key :: stack =>
    value? ts (.members (done ++ [(key, t)]) key' :: stack)
  | .closeArray :: ts, t, .items done :: stack => done? ts (.array (done ++ [t])) stack
  | .closeObject :: ts, t, .members done key :: stack =>
    done? ts (.object (done ++ [(key, t)])) stack
  | _, _, _ => none

end

def read? (text : String) : Option Tree :=
  (lex? text.toList).bind (value? · [])

mutual

lemma value?_tokens (ts : List Token) (stack : List Frame) :
    ∀ t : Tree, value? (t.tokens ++ ts) stack = done? ts t stack
  | .scalar _ => rfl
  | .array [] => rfl
  | .array (x :: xs) => by
    have hx := value?_tokens (Tree.itemTokens xs ++ ts) (.items [] :: stack) x
    have hxs := done?_itemTokens ts stack [] x xs
    rw [Tree.tokens, List.cons_append, List.append_assoc, value?, hx, hxs, List.nil_append]
  | .object [] => rfl
  | .object ((key, x) :: ms) => by
    have hx := value?_tokens (Tree.membersTokens ms ++ ts) (.members [] key :: stack) x
    have hms := done?_membersTokens ts stack [] key x ms
    rw [Tree.tokens, Tree.memberTokens, List.cons_append, List.append_assoc, List.cons_append,
      List.cons_append, value?, hx, hms, List.nil_append]

lemma done?_itemTokens (ts : List Token) (stack : List Frame) (done : List Tree) (x : Tree) :
    ∀ xs : List Tree, done? (Tree.itemTokens xs ++ ts) x (.items done :: stack) =
      done? ts (.array (done ++ x :: xs)) stack
  | [] => rfl
  | y :: ys => by
    have hy := value?_tokens (Tree.itemTokens ys ++ ts) (.items (done ++ [x]) :: stack) y
    have hys := done?_itemTokens ts stack (done ++ [x]) y ys
    rw [List.append_assoc, List.singleton_append] at hys
    rw [Tree.itemTokens, List.cons_append, List.append_assoc, done?, hy, hys]

lemma done?_membersTokens (ts : List Token) (stack : List Frame) (done : List (String × Tree))
    (key : String) (x : Tree) :
    ∀ ms : List (String × Tree), done? (Tree.membersTokens ms ++ ts) x (.members done key :: stack) =
      done? ts (.object (done ++ (key, x) :: ms)) stack
  | [] => rfl
  | (key', y) :: ms => by
    have hy := value?_tokens (Tree.membersTokens ms ++ ts)
      (.members (done ++ [(key, x)]) key' :: stack) y
    have hms := done?_membersTokens ts stack (done ++ [(key, x)]) key' y ms
    rw [List.append_assoc, List.singleton_append] at hms
    rw [Tree.membersTokens, Tree.memberTokens, List.cons_append, List.append_assoc,
      List.cons_append, List.cons_append, done?, hy, hms]

end

/-- The tokens that open a frame, up to the value that is read in it. -/
def Frame.tokens : Frame → List Token
  | .items done => .openArray :: done.flatMap fun t => t.tokens ++ [.comma]
  | .members done key =>
    .openObject :: ((done.flatMap fun m => Tree.memberTokens m ++ [.comma]) ++
      [.scalar (.text key), .colon])

def opened : List Frame → List Token
  | [] => []
  | f :: stack => opened stack ++ f.tokens

lemma flatMap_separator {α β : Type} (f : α → List β) (sep : β) (x : α) (xs : List α) (y : α) :
    f x ++ (xs ++ [y]).flatMap (fun z => sep :: f z) =
      (x :: xs).flatMap (fun z => f z ++ [sep]) ++ f y := by
  induction xs generalizing x with
  | nil => simp
  | cons z zs ih =>
    have h := ih z
    simp only [List.flatMap_cons, List.append_assoc, List.cons_append, List.nil_append] at h ⊢
    rw [h]

namespace Tree

lemma itemTokens_eq_flatMap (xs : List Tree) :
    itemTokens xs = xs.flatMap (fun x => .comma :: x.tokens) ++ [.closeArray] := by
  induction xs with
  | nil => rfl
  | cons x xs ih => rw [itemTokens, ih, List.flatMap_cons, List.append_assoc, List.cons_append]

lemma membersTokens_eq_flatMap (ms : List (String × Tree)) :
    membersTokens ms = ms.flatMap (fun m => .comma :: memberTokens m) ++ [.closeObject] := by
  induction ms with
  | nil => rfl
  | cons m ms ih => rw [membersTokens, ih, List.flatMap_cons, List.append_assoc, List.cons_append]

lemma tokens_array_concat (done : List Tree) (t : Tree) :
    (array (done ++ [t])).tokens = Frame.tokens (.items done) ++ (t.tokens ++ [.closeArray]) := by
  cases done with
  | nil => rfl
  | cons x xs =>
    have h := flatMap_separator tokens .comma x xs t
    rw [List.cons_append, tokens, itemTokens_eq_flatMap, ← List.append_assoc, h, Frame.tokens,
      List.append_assoc, List.cons_append]

lemma tokens_object_concat (done : List (String × Tree)) (key : String) (t : Tree) :
    (object (done ++ [(key, t)])).tokens =
      Frame.tokens (.members done key) ++ (t.tokens ++ [.closeObject]) := by
  cases done with
  | nil => rfl
  | cons m ms =>
    have h := flatMap_separator memberTokens .comma m ms (key, t)
    rw [List.cons_append, tokens, membersTokens_eq_flatMap, ← List.append_assoc, h, Frame.tokens,
      memberTokens]
    simp only [List.append_assoc, List.cons_append, List.nil_append]

end Tree

/-- Each step moves tokens from the text to the stack or to the value, in their order. -/
lemma tokens_of_value?_done? {t : Tree} :
    (∀ ts stack, value? ts stack = some t → opened stack ++ ts = t.tokens) ∧
      ∀ ts x stack, done? ts x stack = some t → opened stack ++ (x.tokens ++ ts) = t.tokens := by
  apply value?.mutual_induct
  case case1 =>
    intro v ts stack ih h
    exact ih h
  case case2 =>
    intro ts stack ih h
    simpa [opened, Frame.tokens] using ih h
  case case3 =>
    intro ts stack ih h
    simpa [opened, Frame.tokens, Tree.tokens] using ih h
  case case4 =>
    intro ts stack ih h
    exact ih h
  case case5 =>
    intro key ts stack ih h
    simpa [opened, Frame.tokens] using ih h
  case case6 =>
    -- no other tokens start a value
    intro ts stack _ _ _ _ _ h
    rw [value?] at h
    cases h
    all_goals assumption
  case case7 =>
    rintro x ⟨⟩
    exact List.append_nil t.tokens
  case case8 =>
    intro ts x done stack ih h
    simpa [opened, Frame.tokens] using ih h
  case case9 =>
    intro key' ts x done key stack ih h
    simpa [opened, Frame.tokens, Tree.memberTokens] using ih h
  case case10 =>
    intro ts x done stack ih h
    have ht := ih h
    rw [Tree.tokens_array_concat] at ht
    simpa [opened] using ht
  case case11 =>
    intro ts x done key stack ih h
    have ht := ih h
    rw [Tree.tokens_object_concat] at ht
    simpa [opened] using ht
  case case12 =>
    -- nor do other tokens follow one
    intro ts x stack _ _ _ _ _ h
    rw [done?] at h
    cases h
    all_goals assumption

/-- The reader accepts just the documents, and reads the tree that they stand for. -/
theorem read?_eq_some_iff {text : String} {t : Tree} : read? text = some t ↔ Document text t := by
  rw [read?, Option.bind_eq_some_iff, Document]
  constructor
  · rintro ⟨ts, hts, h⟩
    have ht := tokens_of_value?_done?.1 ts [] h
    rw [opened, List.nil_append] at ht
    rw [← ht]
    exact lex?_eq_some_iff.1 hts
  · intro h
    have ht := value?_tokens [] [] t
    rw [List.append_nil] at ht
    exact ⟨t.tokens, lex?_eq_some_iff.2 h, ht⟩

lemma Document.unique {text : String} {t t' : Tree} (h : Document text t) (h' : Document text t') :
    t = t' := by
  rw [← read?_eq_some_iff] at h h'
  exact Option.some_inj.1 (h.symm.trans h')

end DocHarvest.Json
