import TouchHle.Lib.Text
import TouchHle.Lib.Kahn
import TouchHle.Lib.Vec

/-! Loading the dylibs an app bundles: every library an image asks for, directly or through other
libraries, once. -/

namespace TouchHle.Loader

open Lib Lib.Text List Except

inductive LoadError
  | panic (fault : Fault)
  | badDylib (text : Text)
  | noMapping (name : Text)
  | cycle (name : Text)
  deriving DecidableEq

def canonicalName (name : Text) : Text :=
  if name = "libstdc++.6.dylib".toList then "libstdc++.6.0.9.dylib".toList
  else if name = "libz.1.dylib".toList ∨ name = "libz.dylib".toList ∨
      name = "libz.1.1.3.dylib".toList then
    "libz.1.2.3.dylib".toList
  else if name = "libsqlite3.0.dylib".toList then "libsqlite3.dylib".toList
  else name

def canonicalizeDylibPath (path : Text) : Text :=
  let (directory, name) := (rsplitOnce '/' path).getD ([], path)
  if directory = [] then canonicalName name else directory ++ '/' :: canonicalName name

def fileName (path : Text) : Option Text :=
  match rsplitOnce '/' (trimEndMatches '/' path) with
  | none => none
  | some (_, name) => if name = [] then none else some name

def drainPending {ε T : Type} (load : Text → Except ε (Option (T × List Text))) :
    ℕ → List Text → List Text → List T → Option (Except ε (List T))
  | 0, _, _, _ => none
  | _ + 1, [], _, loaded => some (.ok loaded)
  | rounds + 1, path :: pending, visited, loaded =>
    if canonicalizeDylibPath path ∈ visited then drainPending load rounds pending visited loaded
    else
      match load path with
      | .error e => some (.error e)
      | .ok none =>
        drainPending load rounds pending (canonicalizeDylibPath path :: visited) loaded
      | .ok (some (binary, dependencies)) =>
        drainPending load rounds (pending ++ dependencies) (canonicalizeDylibPath path :: visited)
          (loaded ++ [binary])

def loadTransitiveDependencies {ε T : Type} (rounds : ℕ) (roots : List Text)
    (load : Text → Except ε (Option (T × List Text))) : Option (Except ε (List T)) :=
  drainPending load rounds roots [] []

structure MachO where
  name : Text
  dynamicLibraries : List Text
  source : Option Text
  deriving DecidableEq

abbrev Bundle := Text → Option (Except Text (List Text))

def loadDylib (bundle : Bundle) (dylib : Text) :
    Except LoadError (Option (MachO × List Text)) :=
  match bundle dylib with
  | none => .ok none
  | some image =>
    if "/usr/lib/".toList.isPrefixOf dylib = false then .error (.panic .assertion)
    else
      match fileName dylib, image with
      | none, _ => .error (.panic .unwrap)
      | some _, .error e => .error (.badDylib e)
      | some name, .ok libraries => .ok (some (⟨name, libraries, some dylib⟩, libraries))

def loadBinaries (bundle : Bundle) (rounds : ℕ) (executableName : Text) (libraries : List Text) :
    Option (Except LoadError (List MachO)) :=
  (loadTransitiveDependencies rounds libraries (loadDylib bundle)).map fun r =>
    (fun dylibs => ⟨executableName, libraries, none⟩ :: dylibs) <$> r

def MachO.DenotedBy (binary : MachO) (path : Text) : Prop :=
  ∃ p, binary.source = some p ∧ canonicalizeDylibPath p = canonicalizeDylibPath path

instance (binary : MachO) (path : Text) : Decidable (binary.DenotedBy path) :=
  match h : binary.source with
  | none => isFalse fun ⟨_, hp, _⟩ => nomatch h.symm.trans hp
  | some p =>
    decidable_of_iff (canonicalizeDylibPath p = canonicalizeDylibPath path)
      ⟨fun hc => ⟨p, h, hc⟩, fun ⟨_, hq, hc⟩ => Option.some.inj (h.symm.trans hq) ▸ hc⟩

section Drain

variable {ε T : Type} {load : Text → Except ε (Option (T × List Text))}

def unvisited (paths visited : List Text) : List Text :=
  paths.filter fun p => canonicalizeDylibPath p ∉ visited

lemma length_unvisited_lt {paths visited : List Text} {path : Text} (hpath : path ∈ paths)
    (hv : canonicalizeDylibPath path ∉ visited) :
    (unvisited paths (canonicalizeDylibPath path :: visited)).length <
      (unvisited paths visited).length := by
  have hsub : (unvisited paths (canonicalizeDylibPath path :: visited)).Sublist
      (unvisited paths visited) := by
    apply monotone_filter_right
    intro p
    simp
  apply lt_of_le_of_ne hsub.length_le
  intro heq
  have hmem : path ∈ unvisited paths visited := by simp [unvisited, hpath, hv]
  rw [← hsub.eq_of_length heq] at hmem
  simp [unvisited] at hmem

lemma exists_drainPending {paths : List Text}
    (hclosed : ∀ p ∈ paths, ∀ b deps, load p = .ok (some (b, deps)) → deps ⊆ paths)
    (pending visited : List Text) (loaded : List T) (hp : pending ⊆ paths) :
    ∃ rounds r, drainPending load rounds pending visited loaded = some r := by
  -- outside: the paths not visited yet; inside: the pending ones
  induction hk : (unvisited paths visited).length using Nat.strong_induction_on
    generalizing pending visited loaded with
  | _ k ih =>
    subst hk
    induction pending with
    | nil => exact ⟨1, _, rfl⟩
    | cons path pending ihp =>
      have hpath : path ∈ paths := hp mem_cons_self
      have hrest : pending ⊆ paths := fun q hq => hp (mem_cons_of_mem _ hq)
      by_cases hv : canonicalizeDylibPath path ∈ visited
      · obtain ⟨rounds, r, hr⟩ := ihp hrest
        exact ⟨rounds + 1, r, by rw [drainPending, if_pos hv, hr]⟩
      · have hless := length_unvisited_lt hpath hv
        cases hl : load path with
        | error e => exact ⟨1, _, by rw [drainPending, if_neg hv, hl]⟩
        | ok o =>
          cases o with
          | none =>
            obtain ⟨rounds, r, hr⟩ := ih _ hless pending _ loaded hrest rfl
            exact ⟨rounds + 1, r, by rw [drainPending, if_neg hv, hl, ← hr]⟩
          | some e =>
            obtain ⟨b, deps⟩ := e
            obtain ⟨rounds, r, hr⟩ := ih _ hless (pending ++ deps) _ (loaded ++ [b])
              (append_subset.mpr ⟨hrest, hclosed path hpath b deps hl⟩) rfl
            exact ⟨rounds + 1, r, by rw [drainPending, if_neg hv, hl, ← hr]⟩

theorem exists_loadTransitiveDependencies {paths roots : List Text}
    (hclosed : ∀ p ∈ paths, ∀ b deps, load p = .ok (some (b, deps)) → deps ⊆ paths)
    (hroots : roots ⊆ paths) :
    ∃ rounds r, loadTransitiveDependencies rounds roots load = some r :=
  exists_drainPending hclosed roots [] [] hroots

def circularBundle : Bundle := fun path =>
  if path = "/usr/lib/a".toList then some (.ok ["/usr/lib/b".toList])
  else if path = "/usr/lib/b".toList then some (.ok ["/usr/lib/a".toList])
  else none

theorem exists_loadTransitiveDependencies_circular : ∃ rounds r, loadTransitiveDependencies rounds
    ["/usr/lib/a".toList] (loadDylib circularBundle) = some r := by
  apply @exists_loadTransitiveDependencies _ _ _ ["/usr/lib/a".toList, "/usr/lib/b".toList]
  · have hdeps : ∀ p ∈ ["/usr/lib/a".toList, "/usr/lib/b".toList],
        (loadDylib circularBundle p).toOption.join.all (fun e =>
          e.2.all (· ∈ ["/usr/lib/a".toList, "/usr/lib/b".toList])) = true := by decide
    intro p hp b deps hload
    have h := hdeps p hp
    rw [hload] at h
    exact fun q hq => of_decide_eq_true (List.all_eq_true.mp h q hq)
  · simp

lemma drainPending_preserves {I : List Text → List T → Prop}
    (hskip : ∀ path visited loaded, I visited loaded → load path = .ok none →
      I (canonicalizeDylibPath path :: visited) loaded)
    (hload : ∀ path visited loaded b deps, I visited loaded →
      canonicalizeDylibPath path ∉ visited → load path = .ok (some (b, deps)) →
      I (canonicalizeDylibPath path :: visited) (loaded ++ [b]))
    {rounds : ℕ} {pending visited : List Text} {loaded result : List T} (hI : I visited loaded)
    (h : drainPending load rounds pending visited loaded = some (.ok result)) :
    ∃ visited', I visited' result := by
  induction rounds generalizing pending visited loaded with
  | zero => simp [drainPending] at h
  | succ rounds ih =>
    cases pending with
    | nil =>
      obtain rfl : loaded = result := by simpa [drainPending] using h
      exact ⟨visited, hI⟩
    | cons path pending =>
      rw [drainPending] at h
      by_cases hv : canonicalizeDylibPath path ∈ visited
      · rw [if_pos hv] at h
        exact ih hI h
      · rw [if_neg hv] at h
        split at h
        · simp at h
        · rename_i hl
          exact ih (hskip path visited loaded hI hl) h
        · rename_i b deps hl
          exact ih (hload path visited loaded b deps hI hv hl) h

end Drain

lemma loadDylib_eq_some {bundle : Bundle} {path : Text} {b : MachO} {deps : List Text}
    (h : loadDylib bundle path = .ok (some (b, deps))) :
    b.source = some path ∧ fileName path = some b.name ∧
      bundle path = some (.ok b.dynamicLibraries) := by
  rw [loadDylib] at h
  split at h
  · simp at h
  · rename_i image hb
    split at h
    · simp at h
    · split at h
      · simp at h
      · simp at h
      · rename_i name libraries hn
        obtain ⟨rfl, rfl⟩ : (⟨name, libraries, some path⟩ : MachO) = b ∧ libraries = deps := by
          simpa using h
        exact ⟨rfl, hn, hb⟩

structure LoadedOnce (visited : List Text) (loaded : List MachO) : Prop where
  apart : loaded.Pairwise fun b c => ∀ path, ¬ (b.DenotedBy path ∧ c.DenotedBy path)
  seen : ∀ b ∈ loaded, ∀ path, b.DenotedBy path → canonicalizeDylibPath path ∈ visited

lemma LoadedOnce.load {bundle : Bundle} {visited deps : List Text} {loaded : List MachO}
    {path : Text} {b : MachO} (h : LoadedOnce visited loaded)
    (hv : canonicalizeDylibPath path ∉ visited)
    (hl : loadDylib bundle path = .ok (some (b, deps))) :
    LoadedOnce (canonicalizeDylibPath path :: visited) (loaded ++ [b]) := by
  have hb : ∀ q, b.DenotedBy q → canonicalizeDylibPath q = canonicalizeDylibPath path := by
    rintro q ⟨p, hp, hc⟩
    obtain rfl : path = p := Option.some.inj ((loadDylib_eq_some hl).1.symm.trans hp)
    exact hc.symm
  constructor
  · apply pairwise_append.mpr
    refine ⟨h.apart, pairwise_singleton _ _, fun c hc d hd q hq => ?_⟩
    obtain rfl := mem_singleton.mp hd
    apply hv
    rw [← hb q hq.2]
    exact h.seen c hc q hq.1
  · intro c hc q hq
    rcases mem_append.mp hc with hc | hc
    · exact mem_cons_of_mem _ (h.seen c hc q hq)
    · obtain rfl := mem_singleton.mp hc
      rw [hb q hq]
      exact mem_cons_self

theorem denotedBy_unique {bundle : Bundle} {rounds : ℕ} {name : Text} {libraries : List Text}
    {bins : List MachO} (h : loadBinaries bundle rounds name libraries = some (.ok bins)) :
    bins.Pairwise fun b c => ∀ path, ¬ (b.DenotedBy path ∧ c.DenotedBy path) := by
  obtain ⟨r, hr, hbins⟩ := Option.map_eq_some_iff.mp h
  obtain ⟨dylibs, rfl, rfl⟩ := map_eq_ok.mp hbins
  have hstart : LoadedOnce [] [] := ⟨List.Pairwise.nil, by simp⟩
  obtain ⟨visited, hdylibs⟩ := drainPending_preserves (I := LoadedOnce)
    (fun path _ _ hI _ => ⟨hI.apart, fun b hb q hq => mem_cons_of_mem _ (hI.seen b hb q hq)⟩)
    (fun _ _ _ _ _ hI hv hl => hI.load hv hl) hstart hr
  apply pairwise_cons.mpr
  refine ⟨fun c _ path hpath => ?_, hdylibs.apart⟩
  obtain ⟨p, hp, -⟩ := hpath.1
  simp at hp

structure BinaryDependencyNode where
  name : Text
  dependencies : List Text

def nodeToIndex (graph : List BinaryDependencyNode) (name : Text) : Option ℕ :=
  Vec.rposition (fun node => node.name = name) graph

def dependencyName (path : Text) : Text :=
  ("/usr/lib/".toList.isPrefixOf? path).getD path

def nodeEdges (graph : List BinaryDependencyNode) (node : BinaryDependencyNode) :
    Except LoadError (List (ℕ × ℕ)) :=
  match nodeToIndex graph node.name with
  | none => .error (.noMapping node.name)
  | some binIndex =>
    .ok ((node.dependencies.filterMap fun path => nodeToIndex graph (dependencyName path)).map
      fun dylibIndex => (dylibIndex, binIndex))

def graphEdges (graph : List BinaryDependencyNode) : Except LoadError (List (ℕ × ℕ)) :=
  List.flatten <$> graph.mapM (nodeEdges graph)

structure Iterates (graph : List BinaryDependencyNode) (iter : List ℕ) : Prop where
  nodup : iter.Nodup
  keys : ∀ i, i ∈ iter ↔ ∃ node ∈ graph, nodeToIndex graph node.name = some i

def generateBinaryLoadOrder (graph : List BinaryDependencyNode) (iter : List ℕ) :
    Except LoadError (List ℕ) := do
  let edges ← graphEdges graph
  let state := Kahn.sort iter edges
  match iter.find? fun index => 0 < state.degree index with
  | none => .ok state.sorted
  | some index =>
    match graph[index]? with
    | none => .error (.panic .unwrap)
    | some node => .error (.cycle node.name)

def dylibGraph (bins : List MachO) : List BinaryDependencyNode :=
  bins.map fun bin => ⟨bin.name, bin.dynamicLibraries⟩

structure InOrder (bins : List MachO) (order : List ℕ) : Prop where
  perm : order.Perm (List.range bins.length)
  after : ∀ (i j : ℕ) (b c : MachO), bins[i]? = some b → bins[j]? = some c →
    ∀ path ∈ b.dynamicLibraries, c.DenotedBy path → order.idxOf j < order.idxOf i

def SpelledAsLoaded (bins : List MachO) : Prop :=
  ∀ b ∈ bins, ∀ path ∈ b.dynamicLibraries, ∀ c ∈ bins, c.DenotedBy path →
    path = "/usr/lib/".toList ++ c.name

instance (bins : List MachO) : Decidable (SpelledAsLoaded bins) :=
  inferInstanceAs (Decidable (∀ b ∈ bins, _))

section Graph

variable {graph : List BinaryDependencyNode} {node : BinaryDependencyNode} {i j : ℕ}

lemma name_of_nodeToIndex {name : Text} (h : nodeToIndex graph name = some i) :
    ∃ node, graph[i]? = some node ∧ node.name = name := by
  obtain ⟨node, hn, hp⟩ := Vec.rposition_some h
  exact ⟨node, hn, by simpa using hp⟩

lemma exists_nodeToIndex (h : node ∈ graph) : ∃ i, nodeToIndex graph node.name = some i :=
  Vec.exists_rposition h (by simp)

lemma nodeToIndex_of_nodup (hnd : (graph.map (·.name)).Nodup) (h : graph[i]? = some node) :
    nodeToIndex graph node.name = some i := by
  obtain ⟨k, hk⟩ := exists_nodeToIndex (mem_of_getElem? h)
  obtain ⟨n, hn, hname⟩ := name_of_nodeToIndex hk
  have hi : (graph.map (·.name))[i]? = some node.name := by simp [h]
  have hk' : (graph.map (·.name))[k]? = some node.name := by simp [hn, hname]
  obtain ⟨hlt, -⟩ := List.getElem?_eq_some_iff.mp hi
  obtain rfl : i = k := (getElem?_inj hlt hnd).mp (hi.trans hk'.symm)
  exact hk

lemma dependencyName_append (name : Text) :
    dependencyName ("/usr/lib/".toList ++ name) = name := by
  simp [dependencyName, List.isPrefixOf?]

lemma mem_graphEdges {edges : List (ℕ × ℕ)} (h : graphEdges graph = .ok edges) {e : ℕ × ℕ} :
    e ∈ edges ↔ ∃ node ∈ graph, ∃ path ∈ node.dependencies,
      nodeToIndex graph (dependencyName path) = some e.1 ∧
        nodeToIndex graph node.name = some e.2 := by
  obtain ⟨rows, hrows, rfl⟩ := map_eq_ok.mp h
  have key : ∀ (nodes : List BinaryDependencyNode) (rows : List (List (ℕ × ℕ))),
      nodes.mapM (nodeEdges graph) = .ok rows →
      (e ∈ rows.flatten ↔ ∃ node ∈ nodes, ∃ path ∈ node.dependencies,
        nodeToIndex graph (dependencyName path) = some e.1 ∧
          nodeToIndex graph node.name = some e.2) := by
    intro nodes
    induction nodes with
    | nil =>
      intro rows h
      obtain rfl : [] = rows := by simpa using h
      simp
    | cons node nodes ih =>
      intro rows h
      rw [mapM_cons] at h
      obtain ⟨row, hrow, h⟩ := bind_eq_ok.mp h
      obtain ⟨rest, hrest, h⟩ := bind_eq_ok.mp h
      obtain rfl : row :: rest = rows := by simpa using h
      have hmem : e ∈ row ↔ ∃ path ∈ node.dependencies,
          nodeToIndex graph (dependencyName path) = some e.1 ∧
            nodeToIndex graph node.name = some e.2 := by
        rw [nodeEdges] at hrow
        split at hrow
        · simp at hrow
        · rename_i k hk
          obtain rfl := ok.inj hrow
          rw [hk]
          obtain ⟨u, v⟩ := e
          simp only [mem_map, mem_filterMap, Prod.mk.injEq, Option.some.injEq]
          constructor
          · rintro ⟨_, ⟨path, hp, hu⟩, rfl, rfl⟩
            exact ⟨path, hp, hu, rfl⟩
          · rintro ⟨path, hp, hu, rfl⟩
            exact ⟨u, ⟨path, hp, hu⟩, rfl, rfl⟩
      rw [flatten_cons, mem_append, hmem, ih rest hrest]
      simp
  exact key graph rows hrows

lemma generateBinaryLoadOrder_eq_ok {iter order : List ℕ}
    (h : generateBinaryLoadOrder graph iter = .ok order) :
    ∃ edges, graphEdges graph = .ok edges ∧ order = (Kahn.sort iter edges).sorted ∧
      ∀ v ∈ iter, ¬ 0 < (Kahn.sort iter edges).degree v := by
  obtain ⟨edges, hedges, h⟩ := bind_eq_ok.mp h
  refine ⟨edges, hedges, ?_⟩
  dsimp only at h
  split at h
  · rename_i hfind
    refine ⟨(ok.inj h).symm, fun v hv => ?_⟩
    simpa using find?_eq_none.mp hfind v hv
  · split at h <;> simp at h

lemma Iterates.heads {iter : List ℕ} {edges : List (ℕ × ℕ)} (hiter : Iterates graph iter)
    (h : graphEdges graph = .ok edges) : ∀ e ∈ edges, e.2 ∈ iter := by
  intro e he
  obtain ⟨node, hnode, _, _, _, hi⟩ := (mem_graphEdges h).mp he
  exact (hiter.keys e.2).mpr ⟨node, hnode, hi⟩

lemma keys_of_nodup (hnd : (graph.map (·.name)).Nodup) (i : ℕ) :
    (∃ node ∈ graph, nodeToIndex graph node.name = some i) ↔ i < graph.length := by
  constructor
  · rintro ⟨node, -, hi⟩
    obtain ⟨n, hn, -⟩ := name_of_nodeToIndex hi
    exact (List.getElem?_eq_some_iff.mp hn).1
  · intro hi
    have hgi : graph[i]? = some graph[i] := getElem?_eq_getElem hi
    exact ⟨graph[i], mem_of_getElem? hgi, nodeToIndex_of_nodup hnd hgi⟩

lemma Iterates.perm_iff {iter : List ℕ} (hiter : Iterates graph iter) :
    iter.Perm (List.range graph.length) ↔ (graph.map (·.name)).Nodup := by
  constructor
  · intro hperm
    rw [nodup_iff_getElem?_ne_getElem?]
    intro i j hij hj heq
    rw [length_map] at hj
    have hmem : i ∈ iter := hperm.mem_iff.mpr (List.mem_range.mpr (hij.trans hj))
    obtain ⟨node, -, hi⟩ := (hiter.keys i).mp hmem
    obtain ⟨n, hn, hname⟩ := name_of_nodeToIndex hi
    have hgj : graph[j]? = some graph[j] := getElem?_eq_getElem hj
    have hsame : graph[j].name = node.name := by
      rw [getElem?_map, getElem?_map, hn, hgj] at heq
      simpa [hname] using heq.symm
    have := Vec.rposition_last hi hgj (by simpa using hsame)
    omega
  · intro hnd
    apply (perm_ext_iff_of_nodup hiter.nodup nodup_range).mpr
    intro i
    rw [hiter.keys, List.mem_range, keys_of_nodup hnd]

lemma iterates_of_perm {iter : List ℕ} (hnd : (graph.map (·.name)).Nodup)
    (hperm : iter.Perm (List.range graph.length)) : Iterates graph iter := by
  refine ⟨hperm.nodup_iff.mpr nodup_range, fun i => ?_⟩
  rw [hperm.mem_iff, List.mem_range, keys_of_nodup hnd]

end Graph

/-- Of the images loaded for an app, with every iteration order of the sorter's map: no path denotes
two of them; an order that is returned has each index once exactly if no two images share a file
name; and then, if dependencies are spelled as the images were loaded, each image comes after those
it depends on. -/
theorem loadOrder_inOrder (bundle : Bundle) (rounds : ℕ) (name : Text) (libraries : List Text)
    (bins : List MachO) (iter order : List ℕ)
    (hbins : loadBinaries bundle rounds name libraries = some (.ok bins))
    (hiter : Iterates (dylibGraph bins) iter)
    (horder : generateBinaryLoadOrder (dylibGraph bins) iter = .ok order) :
    (bins.Pairwise fun b c => ∀ path, ¬ (b.DenotedBy path ∧ c.DenotedBy path)) ∧
      (order.Perm (List.range bins.length) ↔ (bins.map (·.name)).Nodup) ∧
      ((bins.map (·.name)).Nodup → SpelledAsLoaded bins → InOrder bins order) := by
  obtain ⟨edges, hedges, rfl, hdone⟩ := generateBinaryLoadOrder_eq_ok horder
  have hheads := hiter.heads hedges
  have hsorted := Kahn.sorted_perm hiter.nodup hheads hdone
  have hnames : ((dylibGraph bins).map (·.name)) = bins.map (·.name) := by
    simp [dylibGraph, Function.comp_def]
  have hlength : (dylibGraph bins).length = bins.length := by simp [dylibGraph]
  have hkeys := hiter.perm_iff
  rw [hnames, hlength] at hkeys
  have hperm : (Kahn.sort iter edges).sorted.Perm (List.range bins.length) ↔
      (bins.map (·.name)).Nodup :=
    ⟨fun h => hkeys.mp (hsorted.symm.trans h), fun h => hsorted.trans (hkeys.mpr h)⟩
  refine ⟨denotedBy_unique hbins, hperm, fun hnd hspelled => ⟨hperm.mpr hnd, ?_⟩⟩
  intro i j b c hb hc path hpath hdenoted
  have hnode : ∀ (k : ℕ) (m : MachO), bins[k]? = some m →
      nodeToIndex (dylibGraph bins) m.name = some k := by
    intro k m hm
    have hgk : (dylibGraph bins)[k]? = some ⟨m.name, m.dynamicLibraries⟩ := by
      simp [dylibGraph, hm]
    exact nodeToIndex_of_nodup (hnames ▸ hnd) hgk
  have hspell := hspelled b (List.mem_of_getElem? hb) path hpath c (List.mem_of_getElem? hc) hdenoted
  have hedge : (j, i) ∈ edges := by
    apply (mem_graphEdges hedges).mpr
    refine ⟨⟨b.name, b.dynamicLibraries⟩, ?_, path, hpath, ?_, hnode i b hb⟩
    · exact List.mem_map.mpr ⟨b, List.mem_of_getElem? hb, rfl⟩
    · rw [hspell, dependencyName_append]
      exact hnode j c hc
  apply Kahn.sorted_closed hiter.nodup hheads hedge
  exact hsorted.mem_iff.mpr (hheads _ hedge)

def cppRuntime (runtime : Text) : Bundle := fun path =>
  if path = "/usr/lib/libstdc++.6.dylib".toList then some (.ok [])
  else if path = "/usr/lib/libc++.1.dylib".toList then some (.ok [runtime])
  else none

def cppLibraries : List Text :=
  ["/usr/lib/libstdc++.6.dylib".toList, "/usr/lib/libc++.1.dylib".toList]

def cppBinaries (runtime : Text) : List MachO :=
  [⟨"App".toList, cppLibraries, none⟩,
    ⟨"libstdc++.6.dylib".toList, [], some "/usr/lib/libstdc++.6.dylib".toList⟩,
    ⟨"libc++.1.dylib".toList, [runtime], some "/usr/lib/libc++.1.dylib".toList⟩]

theorem loadOrder_inOrder_cppRuntime :
    InOrder (cppBinaries "/usr/lib/libstdc++.6.dylib".toList) [1, 2, 0] :=
  (loadOrder_inOrder (cppRuntime "/usr/lib/libstdc++.6.dylib".toList) 4 "App".toList cppLibraries
    (cppBinaries "/usr/lib/libstdc++.6.dylib".toList) [2, 1, 0] [1, 2, 0] (by decide)
    (iterates_of_perm (by decide) (by decide)) (by decide)).2.2 (by decide) (by decide)

theorem loadOrder_loses_alias :
    ¬ ∀ (bundle : Bundle) (rounds : ℕ) (name : Text) (libraries : List Text) (bins : List MachO)
      (iter order : List ℕ), loadBinaries bundle rounds name libraries = some (.ok bins) →
      Iterates (dylibGraph bins) iter →
      generateBinaryLoadOrder (dylibGraph bins) iter = .ok order → InOrder bins order := by
  intro h
  have horder := h (cppRuntime "/usr/lib/libstdc++.6.0.9.dylib".toList) 4 "App".toList cppLibraries
    (cppBinaries "/usr/lib/libstdc++.6.0.9.dylib".toList) [2, 1, 0] [2, 1, 0] (by decide)
    (iterates_of_perm (by decide) (by decide)) (by decide)
  have hafter := horder.after 2 1 _ _ rfl rfl "/usr/lib/libstdc++.6.0.9.dylib".toList (by decide)
    (by decide)
  exact absurd hafter (by decide)

section Acyclic

variable {graph : List BinaryDependencyNode} {i j : ℕ}

def DependsOn (graph : List BinaryDependencyNode) (i j : ℕ) : Prop :=
  ∃ node dependency, graph[i]? = some node ∧ graph[j]? = some dependency ∧
    ∃ path ∈ node.dependencies, dependencyName path = dependency.name

lemma exists_graphEdges (graph : List BinaryDependencyNode) :
    ∃ edges, graphEdges graph = .ok edges := by
  have key : ∀ nodes : List BinaryDependencyNode, nodes ⊆ graph →
      ∃ rows, nodes.mapM (nodeEdges graph) = .ok rows := by
    intro nodes
    induction nodes with
    | nil => exact fun _ => ⟨[], rfl⟩
    | cons node nodes ih =>
      intro hsub
      obtain ⟨k, hk⟩ := exists_nodeToIndex (hsub mem_cons_self)
      obtain ⟨rest, hrest⟩ := ih fun n hn => hsub (mem_cons_of_mem _ hn)
      obtain ⟨row, hrow⟩ : ∃ row, nodeEdges graph node = .ok row := by
        rw [nodeEdges, hk]
        exact ⟨_, rfl⟩
      exact ⟨row :: rest, by rw [mapM_cons, hrow, hrest]; rfl⟩
  obtain ⟨rows, hrows⟩ := key graph (List.Subset.refl _)
  exact ⟨rows.flatten, map_eq_ok.mpr ⟨rows, hrows, rfl⟩⟩

lemma mem_graphEdges_iff (hnd : (graph.map (·.name)).Nodup) {edges : List (ℕ × ℕ)}
    (h : graphEdges graph = .ok edges) : (j, i) ∈ edges ↔ DependsOn graph i j := by
  rw [mem_graphEdges h]
  constructor
  · rintro ⟨node, hnode, path, hpath, hj, hi⟩
    obtain ⟨k, hk⟩ := mem_iff_getElem?.mp hnode
    obtain rfl := Option.some.inj ((nodeToIndex_of_nodup hnd hk).symm.trans hi)
    obtain ⟨dependency, hdependency, hname⟩ := name_of_nodeToIndex hj
    exact ⟨node, dependency, hk, hdependency, path, hpath, hname.symm⟩
  · rintro ⟨node, dependency, hi, hj, path, hpath, hname⟩
    refine ⟨node, mem_of_getElem? hi, path, hpath, ?_, nodeToIndex_of_nodup hnd hi⟩
    rw [hname]
    exact nodeToIndex_of_nodup hnd hj

lemma generateBinaryLoadOrder_ok_iff {iter : List ℕ} {edges : List (ℕ × ℕ)}
    (h : graphEdges graph = .ok edges) :
    (∃ order, generateBinaryLoadOrder graph iter = .ok order) ↔
      ∀ v ∈ iter, ¬ 0 < (Kahn.sort iter edges).degree v := by
  constructor
  · rintro ⟨order, horder⟩
    obtain ⟨edges', hedges, -, hdone⟩ := generateBinaryLoadOrder_eq_ok horder
    obtain rfl := ok.inj (h.symm.trans hedges)
    exact hdone
  · intro hdone
    have hfind : iter.find? (fun index => 0 < (Kahn.sort iter edges).degree index) = none :=
      find?_eq_none.mpr fun v hv => by simpa using hdone v hv
    refine ⟨(Kahn.sort iter edges).sorted, ?_⟩
    rw [generateBinaryLoadOrder, h, ok_bind]
    dsimp only
    rw [hfind]

end Acyclic

/-- With distinct names, and for every order in which the map is iterated: there is an order exactly if
no binary depends on itself, through however many others, and then it has each index once and every
binary after those it lists. -/
theorem loadOrder_iff_acyclic (graph : List BinaryDependencyNode)
    (hnd : (graph.map (·.name)).Nodup) (iter : List ℕ)
    (hiter : iter.Perm (List.range graph.length)) :
    ((∃ order, generateBinaryLoadOrder graph iter = .ok order) ↔
        ∀ i, ¬ Relation.TransGen (DependsOn graph) i i) ∧
      ∀ order, generateBinaryLoadOrder graph iter = .ok order →
        order.Perm (List.range graph.length) ∧
          ∀ i j, DependsOn graph i j → order.idxOf j < order.idxOf i := by
  obtain ⟨edges, hedges⟩ := exists_graphEdges graph
  have hiterates := iterates_of_perm hnd hiter
  have hnodup := hiterates.nodup
  have hedge : ∀ i j, (j, i) ∈ edges ↔ DependsOn graph i j := fun i j =>
    mem_graphEdges_iff hnd hedges
  have hheads := hiterates.heads hedges
  have hends : ∀ e ∈ edges, e.1 ∈ iter ∧ e.2 ∈ iter := by
    rintro ⟨j, i⟩ he
    refine ⟨?_, hheads _ he⟩
    obtain ⟨-, dependency, -, hj, -⟩ := (hedge i j).mp he
    exact hiter.mem_iff.mpr (List.mem_range.mpr (List.getElem?_eq_some_iff.mp hj).1)
  constructor
  · rw [generateBinaryLoadOrder_ok_iff hedges, Kahn.sorted_all_iff hnodup hends]
    have hswap : (fun j i => (j, i) ∈ edges) = Function.swap (DependsOn graph) := by
      funext j i
      exact propext (hedge i j)
    rw [hswap]
    simp only [Relation.transGen_swap]
  · intro order horder
    obtain ⟨edges', hedges', rfl, hdone⟩ := generateBinaryLoadOrder_eq_ok horder
    obtain rfl := Except.ok.inj (hedges.symm.trans hedges')
    have hsorted := Kahn.sorted_perm hnodup hheads hdone
    refine ⟨hsorted.trans hiter, fun i j hij => ?_⟩
    have he := (hedge i j).mpr hij
    exact Kahn.sorted_closed hnodup hheads he (hsorted.mem_iff.mpr (hheads _ he))

def diamondGraph : List BinaryDependencyNode :=
  [⟨"D".toList, ["B".toList, "/usr/lib/C".toList, "C".toList, "other".toList]⟩,
    ⟨"A".toList, []⟩, ⟨"B".toList, ["A".toList]⟩, ⟨"C".toList, ["A".toList]⟩]

theorem loadOrder_iff_acyclic_diamond :
    ((∃ order, generateBinaryLoadOrder diamondGraph [3, 1, 0, 2] = .ok order) ↔
        ∀ i, ¬ Relation.TransGen (DependsOn diamondGraph) i i) ∧
      ∀ order, generateBinaryLoadOrder diamondGraph [3, 1, 0, 2] = .ok order →
        order.Perm (List.range diamondGraph.length) ∧
          ∀ i j, DependsOn diamondGraph i j → order.idxOf j < order.idxOf i :=
  loadOrder_iff_acyclic diamondGraph (by decide) [3, 1, 0, 2] (by decide)

end TouchHle.Loader
