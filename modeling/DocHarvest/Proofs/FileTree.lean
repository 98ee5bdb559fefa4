import DocHarvest.FileTree
import DocHarvest.Proofs.List

/-! Making directories and writing files. Neither takes anything out of a tree: what a path led to,
it leads to afterwards. And what they add has names that a path can go down to. -/

namespace DocHarvest.FileTree

variable {t t' t'' : FileTree} {location next place : List String} {piece : String}

lemma find?_putEntry (location place : List String) (node : Node)
    (es : List (List String × Node)) :
    ((putEntry location node es).find? (·.1 == place)).map (·.2) =
      if location = place then some node else (es.find? (·.1 == place)).map (·.2) := by
  induction es with
  | nil => by_cases hp : location = place <;> simp [putEntry, hp]
  | cons e es ih =>
    rw [putEntry]
    split
    · next he => by_cases hp : location = place <;> simp_all
    · next he =>
      rw [List.find?_cons, List.find?_cons]
      split
      · next hp =>
        rw [beq_iff_eq] at hp
        have hne : location ≠ place := by
          rintro rfl
          exact he (beq_iff_eq.2 hp)
        rw [if_neg hne]
      · exact ih

lemma node?_put (h : location ≠ []) (t : FileTree) (node : Node) (place : List String) :
    (t.put location node).node? place = if location = place then some node else t.node? place := by
  rw [node?, node?]
  split
  · next hp => rw [if_neg fun he => h (he.trans (List.isEmpty_iff.1 hp))]
  · exact find?_putEntry location place node t.entries

lemma isDir_iff : t.isDir location ↔ t.node? location = some .dir := by
  rw [isDir, beq_iff_eq]

/-- What is in a tree stays in the other one, though a file may have other content there. -/
structure Extends (t t' : FileTree) : Prop where
  workingDir : t'.workingDir = t.workingDir
  dir : ∀ place, t.node? place = some .dir → t'.node? place = some .dir
  found : ∀ place, (t.node? place).isSome → (t'.node? place).isSome

lemma Extends.refl (t : FileTree) : t.Extends t :=
  ⟨rfl, fun _ h => h, fun _ h => h⟩

lemma Extends.trans (h : t.Extends t') (h' : t'.Extends t'') : t.Extends t'' where
  workingDir := h'.workingDir.trans h.workingDir
  dir := fun place hp => h'.dir place (h.dir place hp)
  found := fun place hp => h'.found place (h.found place hp)

lemma Extends.isDir (h : t.Extends t') (hd : t.isDir location) : t'.isDir location :=
  isDir_iff.2 (h.dir location (isDir_iff.1 hd))

lemma extends_put {node : Node} (h : location ≠ [])
    (hn : t.node? location = some .dir → node = .dir) : t.Extends (t.put location node) := by
  constructor
  case workingDir => rfl
  case dir =>
    intro place hp
    rw [node?_put h]
    split
    · next he => rw [hn (he ▸ hp)]
    · exact hp
  case found =>
    intro place hp
    rw [node?_put h]
    split
    · rfl
    · exact hp

lemma enter?_of_isSome (hp : ¬(piece.isEmpty || piece == ".")) (hu : piece ≠ "..")
    (hn : (t.node? (location ++ [piece])).isSome) :
    t.enter? location piece = some (location ++ [piece]) := by
  rw [enter?, if_neg hp, if_neg (by simpa using hu), if_pos hn]

lemma node?_of_enter?_eq_none (h : t.enter? location piece = none) :
    ¬(piece.isEmpty || piece == ".") ∧ piece ≠ ".." ∧ t.node? (location ++ [piece]) = none := by
  rw [enter?] at h
  split_ifs at h with hp hu hn
  exact ⟨hp, by simpa using hu, by simpa using hn⟩

lemma Extends.enter? (h : t.Extends t') (he : t.enter? location piece = some next) :
    t'.enter? location piece = some next := by
  rw [FileTree.enter?] at he ⊢
  split_ifs at he ⊢
  · exact he
  · exact he
  · exact he
  · next hn' hn => exact hn' (h.found _ hn)

lemma Extends.follow? (h : t.Extends t') {pieces : List String}
    (hf : t.follow? location pieces = some next) : t'.follow? location pieces = some next := by
  induction pieces generalizing location with
  | nil => exact hf
  | cons piece pieces ih =>
    rw [FileTree.follow?] at hf ⊢
    split at hf
    · next hd =>
      obtain ⟨l, hl, hn⟩ := Option.bind_eq_some_iff.1 hf
      rw [if_pos (h.isDir hd), h.enter? hl, Option.bind_some]
      exact ih hn
    · cases hf

lemma Extends.origin (h : t.Extends t') (path : String) : t'.origin path = t.origin path := by
  rw [FileTree.origin, FileTree.origin, h.workingDir]

lemma Extends.locate? (h : t.Extends t') {path : String} (hl : t.locate? path = some location) :
    t'.locate? path = some location := by
  rw [FileTree.locate?] at hl ⊢
  split at hl
  · cases hl
  · next hp =>
    rw [if_neg hp, h.origin]
    exact h.follow? hl

/-- Only directories are new in the other tree. -/
structure Makes (t t' : FileTree) : Prop extends Extends t t' where
  file : ∀ place content, t'.node? place = some (.file content) ↔ t.node? place = some (.file content)

lemma Makes.refl (t : FileTree) : t.Makes t :=
  ⟨Extends.refl t, fun _ _ => Iff.rfl⟩

lemma Makes.trans (h : t.Makes t') (h' : t'.Makes t'') : t.Makes t'' :=
  ⟨h.toExtends.trans h'.toExtends, fun place content => (h'.file place content).trans (h.file place content)⟩

lemma makes_put_dir (h : location ≠ []) (hn : t.node? location = none) :
    t.Makes (t.put location .dir) where
  toExtends := extends_put h fun _ => rfl
  file := by
    intro place content
    rw [node?_put h]
    split
    · next he => simp [← he, hn]
    · rfl

lemma makes_makeDirs (t : FileTree) (location pieces : List String) :
    t.Makes (t.makeDirs location pieces).1 := by
  induction pieces generalizing t location with
  | nil => exact Makes.refl t
  | cons piece pieces ih =>
    rw [makeDirs]
    split
    case isFalse => exact Makes.refl t
    case isTrue =>
      split
      · exact ih t _
      · next he =>
        split
        · exact Makes.refl t
        · have hput := makes_put_dir (List.append_ne_nil_of_right_ne_nil location (List.cons_ne_nil piece []))
            (node?_of_enter?_eq_none he).2.2
          exact hput.trans (ih _ _)

lemma follow?_of_makeDirs {pieces : List String}
    (h : t.makeDirs location pieces = (t', some next)) :
    t'.follow? location pieces = some next ∧ t'.isDir next := by
  induction pieces generalizing t location with
  | nil =>
    rw [makeDirs] at h
    split at h
    · next hd =>
      cases h
      exact ⟨rfl, hd⟩
    · cases h
  | cons piece pieces ih =>
    have hm := makes_makeDirs t location (piece :: pieces)
    rw [h] at hm
    rw [makeDirs] at h
    split at h
    case isFalse => cases h
    case isTrue hd =>
      rw [follow?, if_pos (hm.isDir hd)]
      split at h
      · next l hl =>
        rw [hm.enter? hl, Option.bind_some]
        exact ih h
      · next he =>
        split at h
        · cases h
        · obtain ⟨hp, hu, -⟩ := node?_of_enter?_eq_none he
          have hmade := makes_makeDirs (t.put (location ++ [piece]) .dir) (location ++ [piece]) pieces
          rw [h] at hmade
          have hs : ((t.put (location ++ [piece]) .dir).node? (location ++ [piece])).isSome := by
            rw [node?_put (by simp), if_pos rfl]
            rfl
          rw [hmade.enter? (enter?_of_isSome hp hu hs), Option.bind_some]
          exact ih h

lemma makes_makeDirAt (t : FileTree) (path : String) : t.Makes (t.makeDirAt path).1 := by
  rw [makeDirAt]
  split
  · exact Makes.refl t
  · exact makes_makeDirs t _ _

lemma locate?_of_makeDirAt {path : String} (h : t.makeDirAt path = (t', some location)) :
    t'.locate? path = some location ∧ t'.isDir location := by
  have hm := makes_makeDirAt t path
  rw [h] at hm
  rw [makeDirAt] at h
  split at h
  · cases h
  · next hp =>
    rw [locate?, if_neg hp, hm.origin]
    exact follow?_of_makeDirs h

lemma write?_eq_some_iff {name : String} {content : ByteArray} :
    t.write? location name content = some t' ↔
      ¬t.isDir (location ++ [name]) ∧ t.put (location ++ [name]) (.file content) = t' := by
  rw [write?]
  split
  · next hd => simp [hd]
  · next hd => simp [hd]

section Write

variable {name : String} {content : ByteArray}
  (h : t.write? location name content = some t')
include h

lemma extends_of_write? : t.Extends t' := by
  obtain ⟨hd, rfl⟩ := write?_eq_some_iff.1 h
  exact extends_put (by simp) fun hn => (hd (isDir_iff.2 hn)).elim

lemma node?_of_write? (place : List String) :
    t'.node? place = if location ++ [name] = place then some (.file content) else t.node? place := by
  obtain ⟨-, rfl⟩ := write?_eq_some_iff.1 h
  exact node?_put (by simp) t _ place

end Write

section Named

variable {name path : String} {node : Node}

/-- One piece of a path, and one that goes down. -/
def IsName (name : String) : Prop :=
  '/' ∉ name.toList ∧ Path.innerStep? name = some (.down name)

def Named (t : FileTree) : Prop :=
  ∀ e ∈ t.entries, ∀ n ∈ e.1, IsName n

lemma named_startingIn {workingDir : List String} (h : ∀ n ∈ workingDir, IsName n) :
    (startingIn workingDir).Named := by
  intro e he
  obtain ⟨i, -, rfl⟩ := List.mem_map.1 he
  exact fun n hn => h n (List.mem_of_mem_take hn)

lemma isName_work : ∀ n ∈ empty.workingDir, IsName n := by
  simp [empty, startingIn, IsName, Path.innerStep?]

lemma named_empty : empty.Named :=
  named_startingIn isName_work

lemma IsName.ne_up (h : IsName name) : name ≠ ".." := by
  rintro rfl
  cases h.2

lemma isName_of_innerStep?_ne (hs : '/' ∉ name.toList) (hp : ¬(name.isEmpty || name == "."))
    (hu : name ≠ "..") : IsName name := by
  refine ⟨hs, ?_⟩
  rw [Path.innerStep?, if_neg hp, if_neg (by simpa using hu)]

lemma mem_putEntry {e : List String × Node} {es : List (List String × Node)}
    (h : e ∈ putEntry location node es) : e ∈ es ∨ e.1 = location := by
  induction es with
  | nil =>
    rw [putEntry, List.mem_singleton] at h
    exact .inr (congrArg Prod.fst h)
  | cons e' es ih =>
    rw [putEntry] at h
    split at h
    · rcases List.mem_cons.1 h with rfl | h
      · exact .inr rfl
      · exact .inl (List.mem_cons_of_mem e' h)
    · rcases List.mem_cons.1 h with rfl | h
      · exact .inl List.mem_cons_self
      · exact (ih h).imp_left (List.mem_cons_of_mem e')

lemma Named.put (ht : t.Named) (hl : ∀ n ∈ location, IsName n) : (t.put location node).Named := by
  intro e he
  rcases mem_putEntry he with he | he
  · exact ht e he
  · rwa [he]

lemma Named.makeDirs {pieces : List String} (ht : t.Named) (hl : ∀ n ∈ location, IsName n)
    (hs : ∀ p ∈ pieces, '/' ∉ p.toList) (h : t.makeDirs location pieces = (t', some next)) :
    t'.Named ∧ ∀ n ∈ next, IsName n := by
  induction pieces generalizing t location with
  | nil =>
    rw [FileTree.makeDirs] at h
    split at h
    · cases h
      exact ⟨ht, hl⟩
    · cases h
  | cons piece pieces ih =>
    obtain ⟨hpiece, hs⟩ := List.forall_mem_cons.1 hs
    have hdown : ¬(piece.isEmpty || piece == ".") → piece ≠ ".." → ∀ n ∈ location ++ [piece], IsName n := by
      intro hp hu n hn
      rcases List.mem_append.1 hn with hn | hn
      · exact hl n hn
      · rw [List.mem_singleton.1 hn]
        exact isName_of_innerStep?_ne hpiece hp hu
    rw [FileTree.makeDirs] at h
    split at h
    case isFalse => cases h
    case isTrue =>
      split at h
      · next l he =>
        refine ih ht (fun n hn => ?_) hs h
        rw [enter?] at he
        split_ifs at he with hp hu hf
        · cases he
          exact hl n hn
        · cases he
          exact hl n (List.dropLast_subset location hn)
        · cases he
          exact hdown hp (by simpa using hu) n hn
      · next he =>
        split at h
        · cases h
        · obtain ⟨hp, hu, -⟩ := node?_of_enter?_eq_none he
          exact ih (ht.put (hdown hp hu)) (hdown hp hu) hs h

lemma Named.add (ht : t.Named) (hw : ∀ n ∈ t.workingDir, IsName n) (hup : ".." ∉ Path.pieces path) :
    (t.add path node).Named := by
  have hslash : ∀ p ∈ Path.pieces path, '/' ∉ p.toList := by
    intro p hp
    obtain ⟨text, htext, rfl⟩ := List.mem_map.1 hp
    simpa using notMem_of_mem_splitOn htext
  have horigin : ∀ n ∈ t.origin path, IsName n := by
    rw [origin]
    split
    · exact List.forall_mem_nil _
    · exact hw
  rw [FileTree.add]
  split
  · next name t' dir hlast hdirs =>
    obtain ⟨hmem, hname⟩ := List.mem_filter.1 (List.mem_of_getLast? hlast)
    obtain ⟨ht', hdir⟩ := ht.makeDirs horigin
      (fun p hp => hslash p (List.mem_filter.1 (List.dropLast_subset _ hp)).1) hdirs
    refine ht'.put fun n hn => ?_
    rcases List.mem_append.1 hn with hn | hn
    · exact hdir n hn
    · rw [List.mem_singleton.1 hn]
      refine isName_of_innerStep?_ne (hslash name hmem) (by simpa using hname) ?_
      rintro rfl
      exact hup hmem
  · exact ht

end Named

end DocHarvest.FileTree
