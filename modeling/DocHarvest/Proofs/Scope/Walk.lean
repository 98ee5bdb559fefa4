import DocHarvest.Proofs.Scope

/-! The walk outwards from a directory. Each step goes to the directory around the last, and together they
visit all beginnings of the first directory that end in a slash, down to the shortest. -/

namespace DocHarvest.Scope

open Text

section Step

def withoutSlash (dir : List Char) : List Char :=
  if dir.getLast? = some '/' then dir.dropLast else dir

/-- The directory around `dir`: all up to the last slash, one at the very end left aside. -/
def outer? (dir : String) : Option String :=
  if dir.toList.count '/' < 2 then none
  else (cutAtChar? '/' (withoutSlash dir.toList).reverse).map fun (_, before) =>
    String.ofList (before.reverse ++ ['/'])

/-- The directories that a walk visits from `dir` on, up to one that has none around it. -/
inductive Walks : String → List String → Prop
  | stop {dir : String} (h : outer? dir = none) : Walks dir [dir]
  | step {dir around : String} {dirs : List String} (h : outer? dir = some around)
      (hw : Walks around dirs) : Walks dir (dir :: dirs)

lemma Walks.unique {dir : String} {dirs dirs' : List String} (h : Walks dir dirs)
    (h' : Walks dir dirs') : dirs = dirs' := by
  induction h generalizing dirs' with
  | stop hn =>
    cases h' with
    | stop => rfl
    | step hs => exact absurd (hn.symm.trans hs) nofun
  | step hs _ ih =>
    cases h' with
    | stop hn => exact absurd (hn.symm.trans hs) nofun
    | step hs' hw =>
      obtain rfl := Option.some.inj (hs.symm.trans hs')
      rw [ih hw]

lemma reverse_withoutSlash (c : Char) (d : List Char) :
    (withoutSlash (c :: d).reverse).reverse = if c = '/' then d else c :: d := by
  rw [withoutSlash, List.getLast?_reverse, List.dropLast_reverse]
  by_cases hc : c = '/' <;> simp [hc]

lemma cutAtChar?_dropWhile {d : List Char} (h : '/' ∈ d) :
    ∃ name before, cutAtChar? '/' d = some (name, before) ∧
      d.dropWhile (· != '/') = '/' :: before := by
  obtain ⟨name, before, rfl, hn⟩ := List.eq_append_cons_of_mem h
  refine ⟨name, before, cutAtChar?_append hn before, dropWhile_append_stop ?_ (by simp)⟩
  exact fun c hc => bne_iff_ne.2 (ne_of_mem_of_not_mem hc hn)

lemma outer?_reverse (d : List Char) :
    outer? (String.ofList d.reverse) =
      if d.count '/' < 2 then none
      else some (String.ofList (d.tail.dropWhile (· != '/')).reverse) := by
  rw [outer?, String.toList_ofList, List.count_reverse]
  split
  · rfl
  · next h =>
    obtain ⟨name, before, hcut, hdrop⟩ := cutAtChar?_dropWhile (slash_mem_tail h)
    cases d with
    | nil => simp at h
    | cons c d =>
      rw [List.tail_cons] at hcut hdrop
      rw [reverse_withoutSlash, List.tail_cons, hdrop]
      by_cases hc : c = '/'
      · rw [if_pos hc, hcut, Option.map_some, List.reverse_cons]
      · rw [if_neg hc, cutAtChar?, if_neg (by simpa using hc), hcut, Option.map_some, Option.map_some,
          List.reverse_cons]

lemma walks_chainBackwards (d : List Char) :
    Walks (String.ofList d.reverse) ((chainBackwards d).map fun d => String.ofList d.reverse) := by
  induction d using chainBackwards.induct with
  | case1 d ih =>
    rw [chainBackwards, List.map_cons]
    split
    · next h => exact .stop (by rw [outer?_reverse, if_pos h])
    · next h => exact .step (by rw [outer?_reverse, if_neg h]) (ih h)

lemma walks_chain (dir : String) : Walks dir (chain dir) := by
  have h := walks_chainBackwards dir.toList.reverse
  rwa [List.reverse_reverse, String.ofList_toList] at h

end Step

section Ancestors

/-- The directories around `dir`, longest first. -/
def ancestors (dir : String) : List String :=
  ((dir.toList.inits.dropLast.filter (·.getLast? == some '/')).map String.ofList).reverse

lemma mem_dropLast_inits {s t : List Char} : s ∈ t.inits.dropLast ↔ s ≠ t ∧ s <+: t := by
  induction t generalizing s with
  | nil => simp
  | cons c t ih =>
    have hne : t.inits.map (c :: ·) ≠ [] :=
      List.ne_nil_of_mem (List.mem_map_of_mem ((List.mem_inits [] t).2 List.nil_prefix))
    rw [List.inits_cons, List.dropLast_cons_of_ne_nil hne, ← List.map_dropLast, List.mem_cons,
      List.mem_map]
    simp only [ih]
    constructor
    · rintro (rfl | ⟨s, ⟨hs, hp⟩, rfl⟩)
      · exact ⟨nofun, List.nil_prefix⟩
      · exact ⟨fun he => hs (List.cons.inj he).2, (List.prefix_cons_inj c).2 hp⟩
    · rintro ⟨hs, hp⟩
      rcases List.prefix_cons_iff.1 hp with rfl | ⟨s, rfl, ht⟩
      · exact .inl rfl
      · exact .inr ⟨s, ⟨fun he => hs (congrArg (c :: ·) he), ht⟩, rfl⟩

lemma mem_ancestors_iff {dir around : String} :
    around ∈ ancestors dir ↔
      around ≠ dir ∧ around.toList <+: dir.toList ∧ around.toList.getLast? = some '/' := by
  rw [ancestors, List.mem_reverse, List.mem_map]
  simp only [List.mem_filter, mem_dropLast_inits, beq_iff_eq]
  constructor
  · rintro ⟨s, ⟨⟨hne, hp⟩, hl⟩, rfl⟩
    rw [String.toList_ofList]
    refine ⟨?_, hp, hl⟩
    rintro rfl
    exact hne (String.toList_ofList).symm
  · rintro ⟨hne, hp, hl⟩
    exact ⟨around.toList, ⟨⟨mt String.toList_inj.1 hne, hp⟩, hl⟩, String.ofList_toList⟩

lemma pairwise_inits (s : List Char) : s.inits.Pairwise fun a b => a.length < b.length := by
  rw [List.pairwise_iff_getElem]
  intro i j hi hj hij
  rw [List.length_inits] at hi hj
  rw [List.getElem_inits, List.getElem_inits, List.length_take, List.length_take]
  omega

lemma pairwise_ancestors (dir : String) :
    (ancestors dir).Pairwise fun near far => far.length < near.length := by
  rw [ancestors, List.pairwise_reverse, List.pairwise_map]
  have hs := (List.filter_sublist (p := (·.getLast? == some '/'))).trans
    (List.dropLast_sublist dir.toList.inits)
  simpa using (pairwise_inits dir.toList).sublist hs

lemma length_lt_of_mem_ancestors {dir around : String} (h : around ∈ ancestors dir) :
    around.length < dir.length := by
  obtain ⟨hne, hp, -⟩ := mem_ancestors_iff.1 h
  rw [← String.length_toList, ← String.length_toList]
  exact lt_of_le_of_ne hp.length_le fun he => hne (String.toList_inj.1 (hp.eq_of_length he))

lemma map_fromSlashes (s : List Char) :
    (fromSlashes s.reverse.tail).map (fun d => String.ofList d.reverse) =
      ((s.inits.dropLast.filter (·.getLast? == some '/')).map String.ofList).reverse := by
  have ht : ∀ d : List Char, fromSlashes d.tail = d.tails.tail.filter (·.head? == some '/') := by
    intro d
    cases d <;> rfl
  rw [ht, List.tails_reverse, List.tail_reverse, ← List.map_dropLast, List.filter_reverse,
    List.map_reverse, List.filter_map, List.map_map]
  congr 1
  simp [Function.comp_def]

/-- The directories that count for a file in `dir`: none but `dir` itself if it has less than two slashes. -/
def outwards (dir : String) : List String :=
  dir :: if dir.toList.count '/' < 2 then [] else ancestors dir

lemma chain_eq (dir : String) : chain dir = outwards dir := by
  rw [chain_eq_cons, outwards, map_fromSlashes, ancestors]

lemma pairwise_chain (dir : String) :
    (chain dir).Pairwise fun near far => far.length < near.length := by
  rw [chain_eq, outwards, List.pairwise_cons]
  split
  · exact ⟨nofun, .nil⟩
  · exact ⟨fun _ => length_lt_of_mem_ancestors, pairwise_ancestors dir⟩

/-- The shortest beginning of `dir` that ends in a slash. -/
def root (dir : String) : String :=
  String.ofList (dir.toList.takeWhile (· != '/') ++ ['/'])

lemma getLast?_chain {dir : String} (h : 2 ≤ dir.toList.count '/') :
    (chain dir).getLast? = some (root dir) := by
  have hmem : '/' ∈ dir.toList := List.count_pos_iff.1 (Nat.zero_lt_two.trans_le h)
  obtain ⟨name, rest, hs, hn⟩ := List.eq_append_cons_of_mem hmem
  have hrest : rest.reverse ≠ [] := by
    rintro he
    rw [hs, List.reverse_eq_nil_iff.1 he, List.count_append, List.count_eq_zero_of_not_mem hn,
      List.count_singleton_self] at h
    omega
  have hd : dir.toList.reverse.tail = rest.reverse.tail ++ '/' :: name.reverse := by
    rw [hs, List.reverse_append, List.reverse_cons, List.append_assoc, List.singleton_append,
      List.tail_append_of_ne_nil hrest]
  -- Backwards, the last part that starts at a slash is the first name of the directory with its slash.
  have hname : fromSlashes name.reverse = [] := fromSlashes_of_notMem (mt List.mem_reverse.1 hn)
  have hf : fromSlashes dir.toList.reverse.tail =
      (fromSlashes rest.reverse.tail).map (· ++ '/' :: name.reverse) ++ ['/' :: name.reverse] := by
    rw [hd, fromSlashes_append, fromSlashes_slash, hname]
  have hroot : dir.toList.takeWhile (· != '/') = name := by
    rw [hs]
    exact takeWhile_append_stop (fun c hc => bne_iff_ne.2 (ne_of_mem_of_not_mem hc hn)) (by simp)
  rw [chain, List.getLast?_map, chainBackwards_eq, List.count_reverse, if_neg (by omega), hf,
    ← List.cons_append, List.getLast?_concat, Option.map_some, root, hroot, List.reverse_cons,
    List.reverse_reverse]

end Ancestors

/-- A walk comes to an end, after one directory or else at the shortest one around it. -/
theorem walks_iff (dir : String) :
    (∀ dirs, Walks dir dirs ↔ dirs = chain dir) ∧
    chain dir = (dir :: if dir.toList.count '/' < 2 then [] else ancestors dir) ∧
    (∀ around, around ∈ ancestors dir ↔
      around ≠ dir ∧ around.toList <+: dir.toList ∧ around.toList.getLast? = some '/') ∧
    (chain dir).Pairwise (fun near far => far.length < near.length) ∧
    (2 ≤ dir.toList.count '/' → (chain dir).getLast? = some (root dir)) := by
  refine ⟨fun dirs => ⟨fun h => h.unique (walks_chain dir), ?_⟩, chain_eq dir,
    fun _ => mem_ancestors_iff, pairwise_chain dir, getLast?_chain⟩
  rintro rfl
  exact walks_chain dir

end DocHarvest.Scope
