/-! Cutting a text at the first place where something stands. -/

namespace DocHarvest.Text

/-- The parts before and after the first `c`. -/
def cutAtChar? (c : Char) : List Char → Option (List Char × List Char)
  | [] => none
  | x :: s =>
    if x == c then some ([], s)
    else (cutAtChar? c s).map fun (before, after) => (x :: before, after)

/-- The parts before and after the first occurrence of `piece`. -/
def cutAt? (piece : List Char) : List Char → Option (List Char × List Char)
  | [] => if piece.isEmpty then some ([], []) else none
  | c :: s =>
    match piece.isPrefixOf? (c :: s) with
    | some rest => some ([], rest)
    | none => (cutAt? piece s).map fun (before, after) => (c :: before, after)

def hasPiece (piece s : List Char) : Bool :=
  (cutAt? piece s).isSome

/-- The part before the first place where `here` holds of the remaining text, and the part from
there on. -/
def breakWhere (here : List Char → Bool) : List Char → List Char × List Char
  | [] => ([], [])
  | c :: s =>
    if here (c :: s) then ([], c :: s) else (breakWhere here s).map (c :: ·) id

theorem eq_of_cutAtChar? {c : Char} {s before after : List Char}
    (h : cutAtChar? c s = some (before, after)) : s = before ++ c :: after := by
  induction s generalizing before with
  | nil => simp [cutAtChar?] at h
  | cons x s ih =>
    rw [cutAtChar?] at h
    split at h
    · next hx => simp_all
    · obtain ⟨⟨b, a⟩, hb, he⟩ := Option.map_eq_some_iff.1 h
      simp only [Prod.mk.injEq] at he
      obtain ⟨rfl, rfl⟩ := he
      rw [ih hb, List.cons_append]

theorem eq_of_isPrefixOf? {piece s rest : List Char} (h : piece.isPrefixOf? s = some rest) :
    s = piece ++ rest := by
  induction piece generalizing s with
  | nil =>
    cases h
    rfl
  | cons c piece ih =>
    cases s with
    | nil => cases h
    | cons x s =>
      change (if c == x then piece.isPrefixOf? s else none) = some rest at h
      split at h
      · next hx => simp [ih h, beq_iff_eq.1 hx]
      · simp at h

theorem eq_of_cutAt? {piece s before after : List Char}
    (h : cutAt? piece s = some (before, after)) : s = before ++ piece ++ after := by
  induction s generalizing before with
  | nil =>
    rw [cutAt?] at h
    split at h
    · next hp => simp_all
    · simp at h
  | cons c s ih =>
    rw [cutAt?] at h
    split at h
    · next rest hr =>
      simp only [Option.some.injEq, Prod.mk.injEq] at h
      obtain ⟨rfl, rfl⟩ := h
      simpa using eq_of_isPrefixOf? hr
    · obtain ⟨⟨b, a⟩, hb, he⟩ := Option.map_eq_some_iff.1 h
      simp only [Prod.mk.injEq] at he
      obtain ⟨rfl, rfl⟩ := he
      rw [ih hb, List.cons_append, List.cons_append]

theorem breakWhere_append (here : List Char → Bool) (s : List Char) :
    (breakWhere here s).1 ++ (breakWhere here s).2 = s := by
  induction s with
  | nil => rfl
  | cons c s ih =>
    rw [breakWhere]
    split
    · rfl
    · simp [ih]

end DocHarvest.Text
