import DocHarvest.Glob
import DocHarvest.Proofs.List
import DocHarvest.Proofs.Path.Settling

/-! How a search from the working directory spells the places it finds. It goes down from there name by name,
so no place begins with a dot; only a component that fits two dots makes it go up. -/

namespace DocHarvest

namespace Path

/-- The path is a bare dot, or it goes down from where it starts. -/
def Descends (path : String) : Prop :=
  steps path = [.here] ∨ ∃ names : List String, steps path = names.map .down

variable {base name : String}

lemma pieces_of_notMem (h : '/' ∉ name.toList) : pieces name = [name] := by
  rw [pieces, List.splitOn_eq_singleton h]
  simp

lemma pieces_append (base name : String) :
    pieces (base ++ "/" ++ name) = pieces base ++ pieces name := by
  have h : (base ++ "/" ++ name).toList = base.toList ++ '/' :: name.toList := by simp
  rw [pieces, h, List.splitOn_append_cons_self, List.map_append]
  rfl

lemma head?_pieces_append (base name : String) :
    (pieces (base ++ "/" ++ name)).head? = (pieces base).head? := by
  rw [pieces_append, List.head?_append_of_ne_nil _ (pieces_ne_nil base)]

lemma isAbsolute_append (h : base ≠ "") (rest : String) : isAbsolute (base ++ rest) = isAbsolute base := by
  rw [isAbsolute, String.toList_append, List.head?_append_of_ne_nil _ (mt String.toList_eq_nil_iff.1 h)]
  rfl

lemma start_append (h : base ≠ "") (name : String) : start (base ++ "/" ++ name) = start base := by
  rw [start, String.append_assoc, isAbsolute_append h, ← String.append_assoc, head?_pieces_append]
  rfl

/-- What a path says of its start stands before its first slash. -/
lemma start_append_congr (base name name' : String) :
    start (base ++ "/" ++ name) = start (base ++ "/" ++ name') := by
  have h : base ++ "/" ≠ "" := by simp
  rw [start, start, isAbsolute_append h, isAbsolute_append h, head?_pieces_append, head?_pieces_append]

lemma steps_append (base name : String) :
    steps (base ++ "/" ++ name) = start (base ++ "/" ++ name) ++
      ((pieces base).filterMap innerStep? ++ (pieces name).filterMap innerStep?) := by
  rw [steps, pieces_append, List.filterMap_append]

lemma steps_join (h : base ≠ "") :
    steps (join base name) = steps base ++ (pieces name).filterMap innerStep? := by
  rw [join]
  split
  · next hb =>
    rw [Bool.or_eq_true, or_iff_right (by simpa using h), beq_iff_eq, List.getLast?_eq_some_iff] at hb
    obtain ⟨b, hb⟩ := hb
    have hbase : base = String.ofList b ++ "/" ++ "" := by
      rw [← String.toList_inj, hb]
      simp
    have hjoin : base ++ name = String.ofList b ++ "/" ++ name := by
      rw [hbase]
      simp
    rw [hjoin, steps_append, hbase, steps_append, start_append_congr _ name ""]
    simp [pieces, innerStep?]
  · rw [steps_append, start_append h, ← List.append_assoc]
    rfl

lemma steps_of_notMem (h : '/' ∉ name.toList) :
    steps name = if name = "." then [.here] else (innerStep? name).toList := by
  have ha : ¬isAbsolute name := fun hn => h (List.mem_of_head? (beq_iff_eq.1 hn))
  rw [steps, start, if_neg ha, pieces_of_notMem h, List.head?_cons]
  by_cases hd : name = "."
  · simp [hd, innerStep?]
  · rw [if_neg (by simpa using hd), if_neg hd, List.nil_append, List.filterMap_cons]
    cases innerStep? name <;> rfl

lemma innerStep?_cases (h : name ≠ "..") :
    innerStep? name = none ∨ innerStep? name = some (.down name) := by
  rw [innerStep?]
  split_ifs with hp hu
  · exact .inl rfl
  · exact (h (by simpa using hu)).elim
  · exact .inr rfl

lemma descends_of_notMem (hs : '/' ∉ name.toList) (hu : name ≠ "..") : Descends name := by
  rw [Descends, steps_of_notMem hs]
  split
  · exact .inl rfl
  · right
    rcases innerStep?_cases hu with hn | hn
    · exact ⟨[], by rw [hn]; rfl⟩
    · exact ⟨[name], by rw [hn]; rfl⟩

lemma descends_join (h : Descends base) (hs : '/' ∉ name.toList) (hu : name ≠ "..")
    (hh : name = "." ∨ ¬isHere base) : Descends (join base name) := by
  by_cases hb : base = ""
  · subst hb
    exact descends_of_notMem hs hu
  · rw [Descends, steps_join hb, pieces_of_notMem hs]
    rcases h with h | ⟨names, h⟩
    · rcases hh with rfl | hh
      · exact .inl (by rw [h]; rfl)
      · exact (hh (by rw [isHere, h]; rfl)).elim
    · right
      rw [h, List.filterMap_cons, List.filterMap_nil]
      rcases innerStep?_cases hu with hn | hn <;> rw [hn]
      · exact ⟨names, List.append_nil _⟩
      · exact ⟨names ++ [name], by rw [List.map_append]; rfl⟩

end Path

namespace FileTree

variable {t : FileTree} {location names : List String}

lemma Named.of_mem_below (ht : t.Named) (h : names ∈ t.below location) : ∀ n ∈ names, IsName n := by
  rw [below, List.mem_mergeSort, List.mem_filter, List.mem_filterMap] at h
  obtain ⟨⟨e, he, hp⟩, -⟩ := h
  intro n hn
  apply ht e he
  rw [← List.isPrefixOf?_eq_some_iff_append_eq.1 hp]
  exact List.mem_append_right location hn

lemma Named.of_mem_children (ht : t.Named) {n : String} (h : n ∈ t.children location) : IsName n := by
  rw [children, List.mem_filterMap] at h
  obtain ⟨names, hb, hn⟩ := h
  split at hn
  · cases hn
    exact ht.of_mem_below hb n List.mem_cons_self
  · cases hn

end FileTree

namespace Glob

variable {t : FileTree} {place name : String} {pieces : List Piece} {cs : List Component}

lemma descends_child (h : Path.Descends place) (hs : '/' ∉ name.toList) (hu : name ≠ "..") :
    Path.Descends (child place name) := by
  rw [child]
  split
  · exact Path.descends_of_notMem hs hu
  · next hh => exact Path.descends_join h hs hu (.inr hh)

/-- The component fits the two dots that stand for the directory above. -/
def Component.meetsParent : Component → Bool
  | .anyDepth => false
  | .name pieces => pieces.head? == some (.char '.') && fits pieces "..".toList

lemma eq_map_of_literal? {text : List Char} (h : literal? pieces = some text) :
    pieces = text.map .char := by
  induction pieces generalizing text with
  | nil =>
    cases h
    rfl
  | cons p pieces ih =>
    rw [literal?, List.mapM_cons] at h
    obtain ⟨c, hc, h⟩ := Option.bind_eq_some_iff.1 h
    obtain ⟨rest, hr, h⟩ := Option.bind_eq_some_iff.1 h
    cases h
    rw [ih hr]
    cases p <;> cases hc
    rfl

lemma map_cons_ne {p : Piece} {ps : Option (List Piece)} {text : List Char} (hp : literal? [p] = none) :
    ps.map (p :: ·) ≠ some (text.map .char) := by
  intro h
  obtain ⟨_, -, h⟩ := Option.map_eq_some_iff.1 h
  cases text with
  | nil => cases h
  | cons c text =>
    rw [(List.cons.inj h).1] at hp
    cases hp

lemma eq_of_pieces? {s text : List Char} (h : pieces? s = some (text.map .char)) : text = s := by
  induction s generalizing text with
  | nil =>
    rw [pieces?, Option.some.injEq] at h
    exact List.map_eq_nil_iff.1 h.symm
  | cons c s ih =>
    rw [pieces?.eq_def] at h
    dsimp only at h
    split_ifs at h
    · exact (map_cons_ne rfl h).elim
    · exact (map_cons_ne rfl h).elim
    · split at h
      · cases h
      · split_ifs at h
        · split at h
          · exact (map_cons_ne rfl h).elim
          · cases h
        · split at h
          · exact (map_cons_ne rfl h).elim
          · cases h
    · obtain ⟨ps, hps, hc⟩ := Option.map_eq_some_iff.1 h
      cases text with
      | nil => cases hc
      | cons x text =>
        obtain ⟨hx, rfl⟩ := List.cons.inj hc
        rw [ih hps, Piece.char.inj hx]

/-- A component that names something to go down to. -/
structure Component.GoesDown (c : Component) : Prop where
  literal : ∀ pieces text, c = .name pieces → literal? pieces = some text → '/' ∉ text
  parent : c.meetsParent = false

lemma goesDown_of_component? {text : List Char} {c : Component} (h : component? text = some c)
    (hs : '/' ∉ text) (hp : c.meetsParent = false) : c.GoesDown := by
  refine ⟨fun pieces name hc hl => ?_, hp⟩
  subst hc
  rw [component?] at h
  split at h
  · cases h
  · obtain ⟨ps, hps, he⟩ := Option.map_eq_some_iff.1 h
    cases he
    rw [eq_map_of_literal? hl] at hps
    rwa [eq_of_pieces? hps]

section Search

variable (ht : t.Named)
include ht

lemma descends_of_mem_placesBelow (h : Path.Descends place) {p : String × String}
    (hp : p ∈ placesBelow t place) : Path.Descends p.1 := by
  have hfold : ∀ names : List String, (∀ n ∈ names, FileTree.IsName n) →
      ∀ place, Path.Descends place → Path.Descends (names.foldl child place) := by
    intro names
    induction names with
    | nil => exact fun _ _ hplace => hplace
    | cons n names ih =>
      intro hnames place hplace
      obtain ⟨hn, hrest⟩ := List.forall_mem_cons.1 hnames
      exact ih hrest _ (descends_child hplace hn.1 hn.ne_up)
  rw [placesBelow] at hp
  split at hp
  · cases hp
  · obtain ⟨names, hn, hl⟩ := List.mem_filterMap.1 hp
    obtain ⟨last, -, rfl⟩ := Option.map_eq_some_iff.1 hl
    exact hfold names (ht.of_mem_below hn) place h

lemma descends_of_mem_wildStep (hc : (Component.name pieces).meetsParent = false)
    (h : Path.Descends place) {p : String} (hp : p ∈ wildStep t place pieces) : Path.Descends p := by
  rw [wildStep] at hp
  split at hp
  · cases hp
  · split at hp
    · rcases List.mem_append.1 hp with hp | hp
      · rw [dotSteps] at hp
        split at hp
        · next hdot =>
          obtain ⟨d, hd, rfl⟩ := List.mem_map.1 hp
          obtain ⟨hd, hfits⟩ := List.mem_filter.1 hd
          rcases List.mem_cons.1 hd with rfl | hd
          · rw [Component.meetsParent, hdot, Bool.true_and] at hc
            exact (Bool.eq_false_iff.1 hc hfits).elim
          · rw [List.mem_singleton] at hd
            subst hd
            exact Path.descends_join h (by decide) (by decide) (.inl rfl)
        · cases hp
      · obtain ⟨n, hn, rfl⟩ := List.mem_map.1 hp
        have hname := ht.of_mem_children (List.mem_filter.1 hn).1
        exact descends_child h hname.1 hname.ne_up
    · cases hp

omit ht in
lemma descends_of_mem_literalStep {text : List Char} (hc : (Component.name pieces).GoesDown)
    (hl : literal? pieces = some text) (h : Path.Descends place) {p : String}
    (hp : p ∈ literalStep t place (String.ofList text)) : Path.Descends p := by
  have hs : '/' ∉ (String.ofList text).toList := by simpa using hc.literal _ _ rfl hl
  have hu : String.ofList text ≠ ".." := by
    intro he
    have htext : text = "..".toList := by rw [← he, String.toList_ofList]
    have hm := hc.parent
    rw [eq_map_of_literal? hl, htext] at hm
    cases hm
  have hchild := descends_child h hs hu
  rw [literalStep] at hp
  split_ifs at hp
  · rwa [List.mem_singleton.1 hp]
  · cases hp
  · rwa [List.mem_singleton.1 hp]
  · cases hp

/-- By induction on the components, for a search from a place and for one from anywhere below it. -/
lemma descends_of_mem_seek (hcs : ∀ c ∈ cs, c.GoesDown) :
    (∀ place, Path.Descends place → ∀ p ∈ seek t place cs, Path.Descends p) ∧
      ∀ place, Path.Descends place → ∀ p ∈ seekBelow t place cs, Path.Descends p := by
  induction cs with
  | nil =>
    refine ⟨fun place h p hp => ?_, fun place h p hp => ?_⟩
    · rw [seek, List.mem_singleton] at hp
      rwa [hp]
    · rw [seekBelow] at hp
      obtain ⟨q, hq, rfl⟩ := List.mem_map.1 (List.mem_filter.1 hp).1
      exact descends_of_mem_placesBelow ht h hq
  | cons c cs ih =>
    obtain ⟨hc, hcs⟩ := List.forall_mem_cons.1 hcs
    obtain ⟨ihseek, ihbelow⟩ := ih hcs
    cases c with
    | anyDepth =>
      refine ⟨fun place h p hp => ?_, fun place h p hp => ?_⟩
      · rw [seek] at hp
        exact ihbelow place h p hp
      · rw [seekBelow] at hp
        exact ihbelow place h p hp
    | name pieces =>
      refine ⟨fun place h p hp => ?_, fun place h p hp => ?_⟩
      · rw [seek] at hp
        split at hp
        · next text hl =>
          obtain ⟨q, hq, hp⟩ := List.mem_flatMap.1 hp
          exact ihseek q (descends_of_mem_literalStep hc hl h hq) p hp
        · obtain ⟨q, hq, hp⟩ := List.mem_flatMap.1 hp
          exact ihseek q (descends_of_mem_wildStep ht hc.parent h hq) p hp
      · rw [seekBelow] at hp
        obtain ⟨q, hq, hp⟩ := List.mem_flatMap.1 hp
        exact ihseek q.1 (descends_of_mem_placesBelow ht h (List.mem_filter.1 hq).1) p hp

end Search

/-- The piece of a pattern is a component that fits the directory above. -/
def leadsUp (piece : String) : Bool :=
  (component? piece.toList).any Component.meetsParent

lemma goesDown_of_mem_components? {pattern : String} (h : components? pattern = some cs)
    (hp : ∀ piece ∈ Path.pieces pattern, ¬leadsUp piece) : ∀ c ∈ cs, c.GoesDown := by
  intro c hc
  have hm : some c ∈ (pattern.toList.splitOn '/').map component? := by
    rw [map_eq_of_mapM h]
    exact List.mem_map_of_mem hc
  obtain ⟨text, ht, hcomponent⟩ := List.mem_map.1 hm
  apply goesDown_of_component? hcomponent (notMem_of_mem_splitOn ht)
  have hup := hp (String.ofList text) (List.mem_map_of_mem ht)
  rw [leadsUp, String.toList_ofList, hcomponent] at hup
  exact Bool.eq_false_iff.2 hup

lemma isFileAt_of_mem_files? {pattern path : String} {found : List String}
    (h : files? t pattern = some found) (hp : path ∈ found) : t.isFileAt path := by
  obtain ⟨cs, -, rfl⟩ := Option.map_eq_some_iff.1 h
  split at hp
  · cases hp
  · exact (List.mem_filter.1 hp).2

theorem descends_of_mem_files? {pattern : String} {found : List String} (ht : t.Named)
    (h : files? t pattern = some found) (hr : ¬Path.isAbsolute pattern)
    (hp : ∀ piece ∈ Path.pieces pattern, ¬leadsUp piece) : ∀ p ∈ found, Path.Descends p := by
  obtain ⟨cs, hcs, rfl⟩ := Option.map_eq_some_iff.1 h
  intro p hm
  split at hm
  · cases hm
  · have hdown := goesDown_of_mem_components? hcs hp
    rw [origin, if_neg hr] at hm
    exact (descends_of_mem_seek ht hdown).1 "." (.inl rfl) p (List.mem_filter.1 hm).1

end Glob

end DocHarvest
