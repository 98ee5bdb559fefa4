import DocHarvest.Command.Discovery
import DocHarvest.Proofs.Path.Order

/-! The files of a list of operands. They are in ascending order without repetition, and it does not
matter in which order the operands stand or how often. -/

namespace DocHarvest.Discovery

variable {t : FileTree} {extensions operands paths : List String} {found : String → List String}

/-- Each operand expands, and these are the files that it finds. -/
def Finds (t : FileTree) (extensions : List String) (found : String → List String)
    (operands : List String) : Prop :=
  ∀ o ∈ operands, expand t extensions o = .ok (found o)

lemma expandAll_of_finds (h : Finds t extensions found operands) :
    (expandAll t extensions operands).2 = .ok (operands.flatMap found) := by
  induction operands with
  | nil => rfl
  | cons o os ih =>
    obtain ⟨ho, hos⟩ := List.forall_mem_cons.1 h
    rw [expandAll, ho]
    dsimp only
    rw [ih hos]
    rfl

lemma files_of_finds (h : Finds t extensions found operands) :
    (files t extensions operands).2 = .ok (Path.sorted (operands.flatMap found)) := by
  rw [files]
  dsimp only
  rw [expandAll_of_finds h]
  rfl

lemma files_of_ascending {found : List String} {warnings : List Warning}
    (hf : expandAll t extensions operands = (warnings, .ok found))
    (ha : found.Pairwise fun p q => Path.notAfter (Path.steps p) (Path.steps q))
    (hd : Path.distinct found = found) : files t extensions operands = (warnings, .ok found) := by
  rw [files, hf, Except.map, Path.sorted, List.mergeSort_of_pairwise ha, hd]

theorem files_ascending (h : Finds t extensions found operands) :
    ∃ paths, (files t extensions operands).2 = .ok paths ∧ paths.Pairwise Path.Precedes ∧
      (∀ ss, ss ∈ paths.map Path.steps ↔ ∃ o ∈ operands, ss ∈ (found o).map Path.steps) ∧
      ∀ operands', (∀ o, o ∈ operands' ↔ o ∈ operands) →
        ∃ paths', (files t extensions operands').2 = .ok paths' ∧
          paths'.map Path.steps = paths.map Path.steps := by
  refine ⟨_, files_of_finds h, Path.pairwise_sorted _, fun ss => ?_, fun operands' hsame => ?_⟩
  · rw [Path.mem_map_steps_sorted, List.map_flatMap, List.mem_flatMap]
  · have h' : Finds t extensions found operands' := fun o ho => h o ((hsame o).1 ho)
    refine ⟨_, files_of_finds h', Path.map_steps_sorted_congr fun ss => ?_⟩
    simp only [List.map_flatMap, List.mem_flatMap, hsame]

/-- A directory, patterns that overlap with it, and spellings of one file from the working directory, from
above it and from the root. -/
theorem files_ascending_lib :
    let t := (FileTree.empty.add "lib/m.js" (.file "".toUTF8)).add "lib-x/a.js" (.file "".toUTF8)
    let operands :=
      ["lib//m.js", "lib-x/?.js", "lib", "lib/*", "./lib/m.js", "../work/lib/?.js", "/work/lib/", "/../work/lib/m.js"]
    let found : String → List String := fun o =>
      if o = "lib" ∨ o = "lib/*" then ["lib/m.js"] else if o = "lib-x/?.js" then ["lib-x/a.js"]
      else if o = "../work/lib/?.js" then ["../work/lib/m.js"] else if o = "/work/lib/" then ["/work/lib/m.js"]
      else [o]
    Finds t ["js"] found operands ∧
      ∃ paths, (files t ["js"] operands).2 = .ok paths ∧ paths.Pairwise Path.Precedes ∧
        (∀ ss, ss ∈ paths.map Path.steps ↔ ∃ o ∈ operands, ss ∈ (found o).map Path.steps) ∧
        ∃ paths', (files t ["js"] ("lib" :: operands.reverse)).2 = .ok paths' ∧
          paths'.map Path.steps = paths.map Path.steps := by
  intro t operands found
  have h : Finds t ["js"] found operands := by
    rw [Finds]
    decide +kernel
  obtain ⟨paths, hfiles, hpairs, hmem, hsame⟩ := files_ascending h
  refine ⟨h, paths, hfiles, hpairs, hmem, hsame _ fun o => ?_⟩
  rw [List.mem_cons, List.mem_reverse, or_iff_right_of_imp]
  rintro rfl
  decide

end DocHarvest.Discovery
