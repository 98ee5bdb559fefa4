import DocHarvest.Proofs.FileTree

/-! Where a path leads. Its steps tell the location, from the root or from the working directory. Where none
of them leads up, relative paths to one location differ in a leading dot at most. -/

namespace DocHarvest

namespace Path

def Step.move (location : List String) : Step → List String
  | root => []
  | here => location
  | up => location.dropLast
  | down name => location ++ [name]

def settle (origin : List String) (ss : List Step) : List String :=
  ss.foldl Step.move origin

lemma pieces_ne_nil (path : String) : pieces path ≠ [] := by
  rw [pieces, Ne, List.map_eq_nil_iff]
  exact List.splitOn_ne_nil '/' path.toList

lemma settle_steps (origin : List String) (path : String) :
    settle origin (steps path) =
      settle (if isAbsolute path then [] else origin) ((pieces path).filterMap innerStep?) := by
  rw [settle, steps, List.foldl_append, start]
  split
  · rfl
  · split <;> rfl

lemma innerStep?_eq_some {piece : String} {s : Step} (h : innerStep? piece = some s) :
    s = .up ∨ s = .down piece := by
  rw [innerStep?] at h
  split_ifs at h
  · exact .inl (Option.some.inj h).symm
  · exact .inr (Option.some.inj h).symm

lemma root_mem_steps_iff {path : String} : Step.root ∈ steps path ↔ isAbsolute path := by
  have hn : Step.root ∉ (pieces path).filterMap innerStep? := by
    rw [List.mem_filterMap]
    rintro ⟨p, -, hp⟩
    rcases innerStep?_eq_some hp with h | h <;> cases h
  rw [steps, List.mem_append, or_iff_left hn, start]
  split
  · next h => simp [h]
  · next h => split <;> simp [h]

lemma settle_map_down (origin names : List String) : settle origin (names.map .down) = origin ++ names := by
  induction names generalizing origin with
  | nil => exact (List.append_nil origin).symm
  | cons n names ih =>
    rw [List.map_cons, settle, List.foldl_cons, ← settle, ih]
    exact List.append_assoc origin [n] names

lemma settle_here (origin : List String) (ss : List Step) :
    settle origin (.here :: ss) = settle origin ss := rfl

lemma steps_of_up_notMem {path : String} (hr : ¬isAbsolute path) (hu : Step.up ∉ steps path) :
    ∃ names : List String, steps path = names.map .down ∨ steps path = .here :: names.map .down := by
  rw [steps, List.mem_append, not_or] at hu
  have hinner : (pieces path).filterMap innerStep? ∈ Set.range (List.map Step.down) := by
    rw [Set.range_list_map]
    intro s hs
    obtain ⟨p, -, hp⟩ := List.mem_filterMap.1 hs
    rcases innerStep?_eq_some hp with rfl | rfl
    · exact (hu.2 hs).elim
    · exact ⟨p, rfl⟩
  obtain ⟨names, hnames⟩ := hinner
  rw [steps, start, if_neg hr, ← hnames]
  split
  · exact ⟨names, .inr rfl⟩
  · exact ⟨names, .inl rfl⟩

end Path

namespace FileTree

variable {t : FileTree} {location next : List String} {path : String}

lemma eq_of_enter? {piece : String} (h : t.enter? location piece = some next) :
    next = (Path.innerStep? piece).elim location (Path.Step.move location) := by
  rw [enter?] at h
  rw [Path.innerStep?]
  split_ifs at h ⊢
  · exact (Option.some.inj h).symm
  · exact (Option.some.inj h).symm
  · exact (Option.some.inj h).symm

lemma eq_of_follow? {ps : List String} (h : t.follow? location ps = some next) :
    next = Path.settle location (ps.filterMap Path.innerStep?) := by
  induction ps generalizing location with
  | nil => exact (Option.some.inj h).symm
  | cons p ps ih =>
    rw [follow?] at h
    split at h
    · obtain ⟨l, hl, hn⟩ := Option.bind_eq_some_iff.1 h
      rw [ih hn, eq_of_enter? hl, List.filterMap_cons]
      cases Path.innerStep? p <;> rfl
    · cases h

lemma eq_settle_of_locate? (h : t.locate? path = some location) :
    location = Path.settle t.workingDir (Path.steps path) := by
  rw [locate?] at h
  split at h
  · cases h
  · rw [eq_of_follow? h, origin, Path.settle_steps]

lemma locate?_of_isFileAt (h : t.isFileAt path) :
    t.locate? path = some (Path.settle t.workingDir (Path.steps path)) := by
  rw [isFileAt, read?] at h
  cases hl : t.locate? path with
  | none => simp [hl] at h
  | some location => rw [eq_settle_of_locate? hl]

lemma isDir_origin (h : t.locate? path = some location) : t.isDir (t.origin path) := by
  obtain ⟨p, ps, hp⟩ := List.exists_cons_of_ne_nil (Path.pieces_ne_nil path)
  rw [locate?, hp] at h
  split at h
  · cases h
  · rw [follow?] at h
    split at h
    · next hd => exact hd
    · cases h

lemma not_isFileAt_of_steps_here (h : Path.steps path = [.here]) : ¬t.isFileAt path := by
  intro hf
  have hl := locate?_of_isFileAt hf
  have hr : ¬Path.isAbsolute path := by simp [← Path.root_mem_steps_iff, h]
  have hd := isDir_origin hl
  rw [origin, if_neg hr] at hd
  rw [isFileAt, read?, hl, h, Path.settle_here, Option.bind_some] at hf
  rw [Path.settle, List.foldl_nil, isDir_iff.1 hd] at hf
  cases hf

end FileTree

end DocHarvest
