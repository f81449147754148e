import TouchHle.Filesystem.NormalForm

namespace TouchHle.Filesystem

open Lib List

def joinComponents (components : List Text) : Text := List.intercalate ['/'] components

/-- The loop over the stacks of components and of iterators, of which the last stands first. The
children of a directory come in the order they are listed in. -/
def enumerateLoop : List Text → List (List (Text × FsNode)) → List Text → Checked (List Text)
  | _, [], _ => .error .unwrap
  | componentStack, [] :: iterators, paths =>
    if componentStack = [] then do
      assert (componentStack = [] ∧ iterators.length = 0)
      return paths
    else enumerateLoop componentStack.dropLast iterators paths
  | componentStack, ((nextComponent, .node _ children) :: rest) :: iterators, paths =>
    enumerateLoop (componentStack ++ [nextComponent]) (children :: rest :: iterators)
      (paths ++ [joinComponents (componentStack ++ [nextComponent])])
  | componentStack, ((nextComponent, .leaf _) :: rest) :: iterators, paths =>
    enumerateLoop (componentStack ++ [nextComponent]).dropLast (rest :: iterators)
      (paths ++ [joinComponents (componentStack ++ [nextComponent])])
termination_by _ iterators _ => sizeOf iterators
decreasing_by
  all_goals
    simp only [cons.sizeOf_spec, Prod.mk.sizeOf_spec, Tree.node.sizeOf_spec,
      Tree.leaf.sizeOf_spec, List.nil.sizeOf_spec]
    omega

def Fs.enumerateRecursive (fs : Fs) (path : Text) : Checked (Outcome (List Text)) :=
  match fs.lookupNode path with
  | some (.node _ children) => do
    return .ok (← enumerateLoop [] [children] [])
  | _ => return .error ()

mutual

def below : FsNode → List (List Text)
  | .leaf _ => []
  | .node _ children => belowEntries children

def belowEntries : List (Text × FsNode) → List (List Text)
  | [] => []
  | (name, node) :: entries => [name] :: (below node).map (name :: ·) ++ belowEntries entries

end

def DistinctNames (t : FsNode) : Prop :=
  ∀ p b children, t.subtree p = some (.node b children) → (children.map Prod.fst).Nodup

variable {t : FsNode} {cs : List (Text × FsNode)} {r : List Text} {name : Text}

lemma DistinctNames.child {b : Option HostPath} (h : DistinctNames (.node b cs)) {c : FsNode}
    (hc : Tree.child? cs name = some c) : DistinctNames c := by
  intro p b' children hsub
  refine h (name :: p) b' children ?_
  rw [Tree.subtree_cons]
  change (Tree.child? cs name).bind _ = _
  rw [hc, Option.bind_some, hsub]

section

variable (componentStack : List Text) (iterators : List (List (Text × FsNode))) (paths : List Text)

lemma enumerateLoop_leaf (file : FsFile) :
    enumerateLoop componentStack (((name, .leaf file) :: cs) :: iterators) paths =
      enumerateLoop componentStack (cs :: iterators)
        (paths ++ [joinComponents (componentStack ++ [name])]) := by
  rw [enumerateLoop, dropLast_concat]

lemma enumerateLoop_node (b : Option HostPath) (children : List (Text × FsNode)) :
    enumerateLoop componentStack (((name, .node b children) :: cs) :: iterators) paths =
      enumerateLoop (componentStack ++ [name]) (children :: cs :: iterators)
        (paths ++ [joinComponents (componentStack ++ [name])]) := by
  rw [enumerateLoop]

lemma enumerateLoop_back : enumerateLoop (componentStack ++ [name]) ([] :: iterators) paths =
    enumerateLoop componentStack iterators paths := by
  rw [enumerateLoop, if_neg (by simp), dropLast_concat]

lemma enumerateLoop_spec : enumerateLoop componentStack (cs :: iterators) paths =
    enumerateLoop componentStack ([] :: iterators)
      (paths ++ (belowEntries cs).map fun r => joinComponents (componentStack ++ r)) := by
  induction hn : sizeOf cs using Nat.strong_induction_on
    generalizing cs componentStack iterators paths with
  | _ n ih =>
    cases cs with
    | nil => simp [belowEntries]
    | cons e rest =>
      obtain ⟨name, node⟩ := e
      cases node with
      | leaf file =>
        rw [enumerateLoop_leaf, ih (sizeOf rest) (by simp at hn; omega) _ _ _ rfl]
        simp [belowEntries, below]
      | node b children =>
        rw [enumerateLoop_node, ih (sizeOf children) (by simp at hn; omega) _ _ _ rfl,
          enumerateLoop_back, ih (sizeOf rest) (by simp at hn; omega) _ _ _ rfl]
        simp [belowEntries, below, Function.comp_def]

end

lemma enumerateLoop_root : enumerateLoop [] [cs] [] = .ok ((belowEntries cs).map joinComponents) := by
  rw [enumerateLoop_spec, enumerateLoop, if_pos rfl, assert_of ⟨rfl, rfl⟩]
  rfl

lemma mem_belowEntries : r ∈ belowEntries cs ↔
    ∃ e ∈ cs, ∃ r', r = e.1 :: r' ∧ (r' = [] ∨ r' ∈ below e.2) := by
  induction cs with
  | nil => simp [belowEntries]
  | cons e cs ih =>
    obtain ⟨name, node⟩ := e
    rw [belowEntries, mem_append, mem_cons, mem_map, ih]
    constructor
    · rintro ((rfl | ⟨r', hr', rfl⟩) | ⟨e, he, r', rfl, hr'⟩)
      · exact ⟨_, mem_cons_self, [], rfl, .inl rfl⟩
      · exact ⟨_, mem_cons_self, r', rfl, .inr hr'⟩
      · exact ⟨e, mem_cons_of_mem _ he, r', rfl, hr'⟩
    · rintro ⟨e, he, r', rfl, hr'⟩
      rcases mem_cons.mp he with rfl | he
      · rcases hr' with rfl | hr'
        · exact .inl (.inl rfl)
        · exact .inl (.inr ⟨r', hr', rfl⟩)
      · exact .inr ⟨e, he, r', rfl, hr'⟩

lemma child?_eq_some_iff (h : (cs.map Prod.fst).Nodup) {c : FsNode} :
    Tree.child? cs name = some c ↔ (name, c) ∈ cs := by
  induction cs with
  | nil => simp [Tree.child?]
  | cons e cs ih =>
    rw [map_cons, nodup_cons] at h
    by_cases hname : name = e.1
    · subst hname
      rw [Tree.child?_cons_eq, mem_cons]
      constructor
      · intro hc
        exact .inl (Prod.ext rfl (Option.some.inj hc).symm)
      · rintro (heq | hmem)
        · rw [← heq]
        · exact absurd (mem_map_of_mem (f := Prod.fst) hmem) h.1
    · rw [Tree.child?_cons_ne hname, ih h.2, mem_cons]
      refine ⟨.inr, ?_⟩
      rintro (heq | hmem)
      · exact absurd (congrArg Prod.fst heq) hname
      · exact hmem

lemma mem_below (h : DistinctNames t) : r ∈ below t ↔ r ≠ [] ∧ (t.subtree r).isSome := by
  induction r generalizing t with
  | nil =>
    refine iff_of_false (fun hmem => ?_) (by simp)
    cases t with
    | leaf file => simp [below] at hmem
    | node b cs =>
      obtain ⟨e, -, r', heq, -⟩ := mem_belowEntries.mp hmem
      cases heq
  | cons name r ih =>
    rw [Tree.subtree_cons]
    cases t with
    | leaf file => simp [below, Tree.children, Tree.child?]
    | node b cs =>
      have hnodup : (cs.map Prod.fst).Nodup := h [] b cs rfl
      change _ ∈ belowEntries cs ↔ _ ≠ [] ∧ ((Tree.child? cs name).bind _).isSome
      rw [mem_belowEntries]
      constructor
      · rintro ⟨e, he, r', heq, hr'⟩
        obtain ⟨rfl, rfl⟩ := List.cons.inj heq
        have hc := (child?_eq_some_iff hnodup).mpr (show (e.1, e.2) ∈ cs from he)
        refine ⟨by simp, ?_⟩
        rw [hc, Option.bind_some]
        rcases hr' with rfl | hr'
        · rfl
        · exact ((ih (h.child hc)).mp hr').2
      · rintro ⟨-, hsome⟩
        obtain ⟨c, hc⟩ : ∃ c, Tree.child? cs name = some c := by
          cases hchild : Tree.child? cs name with
          | none => simp [hchild] at hsome
          | some c => exact ⟨c, rfl⟩
        rw [hc, Option.bind_some] at hsome
        refine ⟨(name, c), (child?_eq_some_iff hnodup).mp hc, r, rfl, ?_⟩
        by_cases hr : r = []
        · exact .inl hr
        · exact .inr ((ih (h.child hc)).mpr ⟨hr, hsome⟩)

mutual

lemma below_nodup : ∀ t : FsNode, DistinctNames t → (below t).Nodup
  | .leaf _, _ => nodup_nil
  | .node b cs, h => belowEntries_nodup cs (h [] b cs rfl) fun _ he =>
      h.child ((child?_eq_some_iff (h [] b cs rfl)).mpr he)

lemma belowEntries_nodup : ∀ cs : List (Text × FsNode), (cs.map Prod.fst).Nodup →
    (∀ e ∈ cs, DistinctNames e.2) → (belowEntries cs).Nodup
  | [], _, _ => nodup_nil
  | (name, node) :: entries, hkeys, hall => by
    rw [map_cons, nodup_cons] at hkeys
    have hnode := hall (name, node) mem_cons_self
    have hbelow := below_nodup node hnode
    have hentries := belowEntries_nodup entries hkeys.2 fun e he => hall e (mem_cons_of_mem _ he)
    rw [belowEntries]
    refine nodup_append.mpr ⟨nodup_cons.mpr ⟨fun hmem => ?_, ?_⟩, hentries,
      fun r hr r' hr' heq => ?_⟩
    · obtain ⟨r, hr, heq⟩ := mem_map.mp hmem
      obtain rfl := (List.cons.inj heq).2
      exact ((mem_below hnode).mp hr).1 rfl
    · exact hbelow.map fun _ _ heq => (List.cons.inj heq).2
    · subst heq
      obtain ⟨e, he, q, rfl, -⟩ := mem_belowEntries.mp hr'
      have hname : e.1 = name := by
        rcases mem_cons.mp hr with heq | hmem
        · exact (List.cons.inj heq).1
        · obtain ⟨p, -, heq⟩ := mem_map.mp hmem
          exact (List.cons.inj heq).1.symm
      have hmem := mem_map_of_mem (f := Prod.fst) he
      rw [hname] at hmem
      exact hkeys.1 hmem

end

variable {l : List Text} {p : ℕ}

lemma prefix_drop_of_append (h : marker <+: (l ++ r).drop p) (hle : p + 3 ≤ l.length) :
    marker <+: l.drop p := by
  rw [drop_append_of_le_length (by omega)] at h
  refine prefix_of_prefix_length_le h (prefix_append _ _) ?_
  have hmarker : marker.length = 3 := rfl
  rw [length_drop]
  omega

lemma markerPosition_append (h : markerPosition l = some p) :
    markerPosition (l ++ r) = some p := by
  obtain ⟨hat, hfirst⟩ := markerPosition_eq_some.mp h
  have hle := marker_length_le hat
  refine markerPosition_eq_some.mpr ⟨?_, fun q hq hmarker => ?_⟩
  · rw [drop_append_of_le_length (by omega)]
    exact hat.trans (prefix_append _ _)
  · exact hfirst q hq (prefix_drop_of_append hmarker (by omega))

lemma stripDuplicatePrefix_append (h : stripDuplicatePrefix l ≠ l) (r : List Text) :
    stripDuplicatePrefix (l ++ r) = stripDuplicatePrefix l ++ r := by
  unfold stripDuplicatePrefix at h ⊢
  by_cases hlong : 6 < l.length
  · rw [if_pos hlong] at h ⊢
    rw [if_pos (by rw [length_append]; omega)]
    cases hfirst : markerPosition l with
    | none =>
      rw [hfirst] at h
      exact absurd rfl h
    | some dupStart =>
      rw [hfirst] at h
      rw [markerPosition_append hfirst]
      dsimp only at h ⊢
      have hle := marker_length_le (markerPosition_eq_some.mp hfirst).1
      rw [drop_append_of_le_length (by omega)]
      cases hsecond : markerPosition (l.drop (dupStart + 1)) with
      | none =>
        rw [hsecond] at h
        exact absurd rfl h
      | some secondPos =>
        have hle' := marker_length_le (markerPosition_eq_some.mp hsecond).1
        rw [length_drop] at hle'
        rw [markerPosition_append hsecond]
        dsimp only
        rw [drop_append_of_le_length (by omega)]
  · rw [if_neg hlong] at h
    exact absurd rfl h

lemma stripDuplicatePrefix_eq_nil (h : stripDuplicatePrefix l = []) : l = [] := by
  rcases stripDuplicatePrefix_cases l with hsame | ⟨-, q, -, -, hq, hstrip⟩
  · rw [← hsame, h]
  · rw [← hstrip, h] at hq
    exact absurd (eq_nil_of_prefix_nil hq) (by decide)

def entryPath (path : Text) (r : List Text) : Text := path ++ '/' :: joinComponents r

lemma normalized_entryPath (hr : r ≠ []) (hproper : ∀ c ∈ r, Proper c) (path : Text)
    (cwd : AbsolutePath) : normalized (entryPath path r) cwd =
      (if path = [] then [] else normalized path cwd) ++ r := by
  have hsplit : (joinComponents r).splitOn '/' = r :=
    splitOn_intercalate '/' (fun c hc => (hproper c hc).not_separator) hr
  rw [normalized, entryPath, splitOn_append_cons_self, hsplit, foldl_append,
    foldl_applyPathComponent hproper]
  congr 1
  cases path with
  | nil => rfl
  | cons c path => rfl

/-- The entries of a directory, by the names on the way, can be looked up: their names are names that
paths can have, the path of the directory is not empty, unless that is the root, and nothing is
stripped of their paths that is not stripped of the directory's. -/
structure CanBeLookedUp (path : Text) (cwd : AbsolutePath) (rs : List (List Text)) : Prop where
  proper : ∀ r ∈ rs, ∀ c ∈ r, Proper c
  base : rs ≠ [] → path = [] → normalized path cwd = []
  kept : ∀ r ∈ rs, stripDuplicatePrefix (normalized path cwd ++ r) ≠ normalized path cwd ++ r →
    stripDuplicatePrefix (normalized path cwd) ≠ normalized path cwd

lemma canBeLookedUp_iff {path : Text} {cwd : AbsolutePath} {rs : List (List Text)}
    (hrs : ∀ r ∈ rs, r ≠ []) : CanBeLookedUp path cwd rs ↔
      ∀ r ∈ rs, resolvePath (entryPath path r) cwd = resolvePath path cwd ++ r := by
  constructor
  · intro h r hr
    have hbase : (if path = [] then [] else normalized path cwd) = normalized path cwd := by
      split
      next hpath => exact (h.base (ne_nil_of_mem hr) hpath).symm
      next => rfl
    rw [resolvePath_eq, resolvePath_eq, normalized_entryPath (hrs r hr) (h.proper r hr), hbase]
    by_cases hstrip : stripDuplicatePrefix (normalized path cwd) = normalized path cwd
    · rw [hstrip]
      by_contra hne
      exact h.kept r hr hne hstrip
    · exact stripDuplicatePrefix_append hstrip r
  · intro h
    have hproper : ∀ r ∈ rs, ∀ c ∈ r, Proper c := by
      intro r hr c hc
      exact resolvePath_proper c (h r hr ▸ mem_append_right _ hc)
    have hpath : rs ≠ [] → path = [] → normalized path cwd = [] := by
      intro hne hempty
      obtain ⟨r, hr⟩ := exists_mem_of_ne_nil rs hne
      have heq := h r hr
      rw [resolvePath_eq, resolvePath_eq, normalized_entryPath (hrs r hr) (hproper r hr),
        if_pos hempty, nil_append] at heq
      have hle := (stripDuplicatePrefix_suffix r).length_le
      rw [heq, length_append] at hle
      exact stripDuplicatePrefix_eq_nil (length_eq_zero_iff.mp (by omega))
    refine ⟨hproper, hpath, fun r hr hne hstrip => hne ?_⟩
    have hbase : (if path = [] then [] else normalized path cwd) = normalized path cwd := by
      split
      next hempty => exact (hpath (ne_nil_of_mem hr) hempty).symm
      next => rfl
    have heq := h r hr
    rwa [resolvePath_eq, resolvePath_eq, normalized_entryPath (hrs r hr) (hproper r hr), hbase,
      hstrip] at heq

def Fs.descendants (fs : Fs) (path : Text) : List (List Text) :=
  match fs.lookupNode path with
  | some node => below node
  | none => []

structure Enumerates (fs : Fs) (path : Text) (entries : List Text) : Prop where
  entries_eq : entries = (fs.descendants path).map joinComponents
  nodup : (fs.descendants path).Nodup
  mem_iff : ∀ node, fs.lookupNode path = some node →
    ∀ r, r ∈ fs.descendants path ↔ r ≠ [] ∧ (node.subtree r).isSome

def EntriesFound (fs : Fs) (path : Text) : Prop :=
  ∀ r ∈ fs.descendants path, fs.resolve (entryPath path r) = fs.resolve path ++ r

/-- A directory is listed with one entry for everything below it, and looking the entries up finds
what they are about where they can be looked up. -/
theorem enumerateRecursive_correct (fs : Fs) (path : Text) (h : DistinctNames fs.root) :
    (if fs.isDir path then
      ∃ entries, fs.enumerateRecursive path = .ok (.ok entries) ∧ Enumerates fs path entries
    else fs.enumerateRecursive path = .ok (.error ())) ∧
    (EntriesFound fs path ↔ CanBeLookedUp path fs.workingDirectory (fs.descendants path)) ∧
    (EntriesFound fs path → ∀ node, fs.lookupNode path = some node → ∀ r ∈ fs.descendants path,
      fs.lookupNode (entryPath path r) = node.subtree r) := by
  have hsub : ∀ node, fs.lookupNode path = some node → DistinctNames node := by
    intro node hnode p b children hp
    refine h (fs.resolve path ++ p) b children ?_
    rw [Tree.subtree_append]
    change (fs.lookupNode path).bind _ = _
    rw [hnode, Option.bind_some, hp]
  have hne : ∀ r ∈ fs.descendants path, r ≠ [] := by
    intro r hr
    rw [Fs.descendants] at hr
    split at hr
    next node hnode => exact ((mem_below (hsub node hnode)).mp hr).1
    next => simp at hr
  refine ⟨?_, (canBeLookedUp_iff hne).symm, fun hfound node hnode r hr => ?_⟩
  · rw [Fs.isDir, Fs.enumerateRecursive]
    cases hnode : fs.lookupNode path with
    | none => rfl
    | some node =>
      cases node with
      | leaf file => rfl
      | node b children =>
        have hdesc : fs.descendants path = belowEntries children := by
          rw [Fs.descendants, hnode]
          rfl
        dsimp only
        rw [if_pos rfl, enumerateLoop_root]
        refine ⟨_, rfl, by rw [hdesc], ?_, fun node hnode' r => ?_⟩
        · rw [hdesc]
          exact below_nodup _ (hsub _ hnode)
        · obtain rfl := Option.some.inj (hnode.symm.trans hnode')
          rw [hdesc]
          exact mem_below (hsub _ hnode)
  · rw [Fs.lookupNode, hfound r hr, Tree.subtree_append]
    change (fs.lookupNode path).bind _ = _
    rw [hnode, Option.bind_some]

def nested : List Text → FsNode
  | [] => .node none []
  | name :: names => .node none [(name, nested names)]

lemma nested_distinctNames (names : List Text) : DistinctNames (nested names) := by
  intro p b children hp
  induction names generalizing p with
  | nil =>
    cases p with
    | nil =>
      cases hp
      exact nodup_nil
    | cons name p => cases hp
  | cons first names ih =>
    cases p with
    | nil =>
      cases hp
      simp
    | cons name p =>
      rw [Tree.subtree_cons] at hp
      obtain ⟨c, hc, hp⟩ := Option.bind_eq_some_iff.mp hp
      change Tree.child? [(first, nested names)] name = some c at hc
      obtain ⟨-, rfl⟩ := Prod.mk.inj (mem_singleton.mp ((child?_eq_some_iff (by simp)).mp hc))
      exact ih p hp

def markedTwice : List Text := marker ++ ["a".toList] ++ marker

def nestedFs (names : List Text) : Fs := ⟨nested names, rootDirectory, none⟩

theorem enumerateRecursive_correct_nested :
    ∃ entries, (nestedFs ["a".toList]).enumerateRecursive ['/'] = .ok (.ok entries) ∧
      Enumerates (nestedFs ["a".toList]) ['/'] entries :=
  (if_pos (show (nestedFs ["a".toList]).isDir ['/'] = true by decide)).mp
    (enumerateRecursive_correct (nestedFs ["a".toList]) ['/'] (nested_distinctNames _)).1

theorem not_entriesFound : ¬ ∀ fs : Fs, DistinctNames fs.root → ∀ path, fs.isDir path = true →
    EntriesFound fs path := by
  intro h
  have hmem : markedTwice ∈ (nestedFs markedTwice).descendants ['/'] := by
    change markedTwice ∈ below (nested markedTwice)
    exact (mem_below (nested_distinctNames _)).mpr ⟨by decide, by decide⟩
  have hfound := h (nestedFs markedTwice) (nested_distinctNames _) ['/'] (by decide) markedTwice hmem
  exact absurd hfound (by decide)

end TouchHle.Filesystem
