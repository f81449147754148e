import TouchHle.Filesystem.Effects

namespace TouchHle.Filesystem

open Lib Tree

def KeptAs (l l' : FsLabel) : Prop :=
  l' = l ∨ ∃ file hostPath, l = .inl ⟨.ipaFileRef file, false⟩ ∧ l' = .inl ⟨.path hostPath, true⟩

/-- Each node that is read-only at the start is still where it was, and a read-only directory has
the entries that it had. -/
structure Frozen (init root : FsNode) : Prop where
  present : ∀ p l, init.label? p = some l → FsNode.ReadOnly l →
    ∃ l', root.label? p = some l' ∧ KeptAs l l'
  entries : ∀ p name, init.label? p = some (.inr none) →
    (root.label? (p ++ [name])).isSome = (init.label? (p ++ [name])).isSome

def Guards (init : FsNode) (path : List Text) : Prop :=
  ∃ q l, init.label? q = some l ∧ FsNode.ReadOnly l ∧ path <+: q

/-- The requests that leave the read-only part alone. No open, to write or create, is of a node
that it would replace; and nothing read-only is renamed, replaced by a renaming, or loses an entry
to one. -/
def Spares (init : FsNode) (s : Storage) : Request → Prop
  | .openWithOptions path o => replaces s path o = false
  | .write path _ => replaces s path writeOptions = false
  | .rename source target => renames s source target = true →
    ¬ Guards init (s.fs.resolve source) ∧ ¬ Guards init (s.fs.resolve target) ∧
      init.label? (s.fs.resolve source).dropLast ≠ some (.inr none)
  | _ => True

section

variable {init root : FsNode} {dir : List Text} {name : Text} {w : Option HostPath}
  {children : List (Text × FsNode)} {node : FsNode}

lemma Frozen.refl : Frozen init init :=
  ⟨fun _ l hl _ => ⟨l, hl, .inl rfl⟩, fun _ _ _ => rfl⟩

lemma Frozen.dir_kept (h : Frozen init root) {p : List Text}
    (hp : init.label? p = some (.inr none)) : root.label? p = some (.inr none) := by
  obtain ⟨l, hl, rfl | ⟨file, hostPath, hfile, -⟩⟩ := h.present p _ hp rfl
  · exact hl
  · cases hfile

lemma Frozen.not_guards_of_absent (h : Frozen init root) {p : List Text}
    (hp : root.label? p = none) : ¬ Guards init p := by
  rintro ⟨q, l, hq, hl, r, rfl⟩
  obtain ⟨l', hl', -⟩ := h.present _ l hq hl
  cases r with
  | nil =>
    rw [List.append_nil, hp] at hl'
    cases hl'
  | cons k r =>
    obtain ⟨b, hb⟩ := label?_above (p := p) (k := k) (q := r) (t := root) (by simp [hl'])
    rw [hp] at hb
    cases hb

lemma Frozen.change (h : Frozen init root) {root' : FsNode}
    (hg : ¬ Guards init (dir ++ [name])) (hdir : init.label? dir ≠ some (.inr none))
    (hsame : ∀ q, ¬ dir ++ [name] <+: q → root'.label? q = root.label? q) :
    Frozen init root' := by
  have hout : ∀ p l, init.label? p = some l → FsNode.ReadOnly l → ¬ dir ++ [name] <+: p :=
    fun p l hp hl hpre => hg ⟨p, l, hp, hl, hpre⟩
  constructor
  · intro p l hp hl
    rw [hsame p (hout p l hp hl)]
    exact h.present p l hp hl
  · intro p name' hp
    rw [hsame, h.entries p name' hp]
    intro hpre
    rcases List.prefix_concat_iff.mp hpre with heq | hpre
    · obtain ⟨rfl, -⟩ := List.append_inj' heq rfl
      exact hdir hp
    · exact hout p _ hp rfl hpre

lemma Frozen.not_frozen_dir (h : Frozen init root) {hostPath : HostPath}
    (hdir : root.subtree dir = some (.node (some hostPath) children)) :
    init.label? dir ≠ some (.inr none) := by
  intro hinit
  have hlabel := h.dir_kept hinit
  rw [label?_of_subtree hdir] at hlabel
  cases hlabel

lemma Frozen.insertAt (h : Frozen init root) {hostPath : HostPath}
    (hdir : root.subtree dir = some (.node (some hostPath) children))
    (hg : ¬ Guards init (dir ++ [name])) : Frozen init (root.insertAt dir name node) := by
  apply h.change hg (h.not_frozen_dir hdir)
  intro q hq
  rw [label?_insertAt hdir, if_neg hq]

lemma Frozen.eraseAt (h : Frozen init root) (hdir : root.subtree dir = some (.node w children))
    (hg : ¬ Guards init (dir ++ [name])) (hentry : init.label? dir ≠ some (.inr none)) :
    Frozen init (root.eraseAt dir name) := by
  apply h.change hg hentry
  intro q hq
  rw [label?_eraseAt hdir, if_neg hq]

lemma label?_child (hdir : root.subtree dir = some (.node w children)) :
    root.label? (dir ++ [name]) = (child? children name).map label := by
  rw [label?_append hdir, label?_cons]
  change (child? children name).bind _ = _
  cases child? children name with
  | none => rfl
  | some c => exact label?_nil

lemma Frozen.creates {root' : FsNode} (h : Frozen init root) (hc : Creates root root') :
    Frozen init root' := by
  obtain ⟨dir, name, hostPath, children, node, hdir, habsent, -, rfl⟩ := hc
  apply h.insertAt hdir
  apply h.not_guards_of_absent
  rw [label?_child hdir, habsent]
  rfl

lemma Frozen.copies (h : Frozen init root) {file : IpaFileRef} {hostPath : HostPath}
    (hdir : root.subtree dir = some (.node w children))
    (hfile : child? children name = some (.leaf ⟨.ipaFileRef file, false⟩)) :
    Frozen init (root.insertAt dir name (FsNode.file (.path hostPath) true)) := by
  have hold : root.label? (dir ++ [name]) = some (.inl ⟨.ipaFileRef file, false⟩) := by
    rw [label?_child hdir, hfile]
    rfl
  have hnew : ∀ q, (root.insertAt dir name (FsNode.file (.path hostPath) true)).label? q =
      if q = dir ++ [name] then some (.inl ⟨.path hostPath, true⟩) else root.label? q := by
    intro q
    rw [label?_insertAt hdir]
    by_cases hq : q = dir ++ [name]
    · subst hq
      have hlen : (dir ++ [name]).drop (dir.length + 1) = [] := by simp
      rw [if_pos (List.prefix_refl _), if_pos rfl, hlen, label?_nil]
      rfl
    · rw [if_neg hq]
      split
      · rename_i hpre
        obtain ⟨r, rfl⟩ := hpre
        cases r with
        | nil => exact absurd (List.append_nil _) hq
        | cons k r =>
          have hdrop : (dir ++ [name] ++ k :: r).drop (dir.length + 1) = k :: r := by simp
          rw [hdrop, label?_cons, label?_append (subtree_of_leaf hold),
            label?_cons]
          rfl
      · rfl
  constructor
  · intro p l hp hl
    obtain ⟨l', hl', hkept⟩ := h.present p l hp hl
    rw [hnew]
    split
    · rename_i hpc
      subst hpc
      obtain rfl := Option.some.inj (hold.symm.trans hl')
      rcases hkept with rfl | ⟨file', hostPath', -, hpath⟩
      · exact ⟨_, rfl, .inr ⟨file, hostPath, rfl, rfl⟩⟩
      · cases hpath
    · exact ⟨l', hl', hkept⟩
  · intro p name' hp
    rw [← h.entries p name' hp, hnew]
    split
    · rename_i hpc
      rw [hpc, hold]
      rfl
    · rfl

lemma Frozen.removes (h : Frozen init root) (hsheltered : Sheltered init) {hostPath : HostPath}
    (hdir : root.subtree dir = some (.node (some hostPath) children))
    (hnode : child? children name = some node)
    (hkind : (∃ p, node = .leaf ⟨.path p, true⟩) ∨ ∃ p, node = .node (some p) []) :
    Frozen init (root.eraseAt dir name) := by
  have hentry := h.not_frozen_dir hdir
  apply h.eraseAt hdir _ hentry
  rintro ⟨q, l, hq, hl, r, rfl⟩
  obtain ⟨l', hl', hkept⟩ := h.present _ l hq hl
  have hsub : root.subtree (dir ++ [name]) = some node := by
    rw [subtree_append, hdir]
    change (child? children name).bind _ = _
    rw [hnode]
    exact subtree_nil
  rw [label?_append hsub] at hl'
  cases r with
  | nil =>
    rw [label?_nil] at hl'
    obtain rfl := Option.some.inj hl'
    rcases hkind with ⟨p, rfl⟩ | ⟨p, rfl⟩
    · rcases hkept with rfl | ⟨file, hostPath', rfl, -⟩
      · cases hl
      · rw [List.append_nil] at hq
        exact hentry (hsheltered dir name file false hq)
    · rcases hkept with rfl | ⟨file, hostPath', -, hpath⟩
      · cases hl
      · cases hpath
  | cons k r =>
    rw [label?_cons] at hl'
    rcases hkind with ⟨p, rfl⟩ | ⟨p, rfl⟩ <;> cases hl'

end

section

variable {init : FsNode} {s s' : Storage} {r : Request}

lemma Frozen.creates_all {root root' : FsNode} (h : Frozen init root)
    (hc : Relation.ReflTransGen Creates root root') : Frozen init root' := by
  induction hc with
  | refl => exact h
  | tail _ hstep ih => exact ih.creates hstep

lemma Frozen.step (hsheltered : Sheltered init) (h : Frozen init s.fs.root)
    (hspares : Spares init s r) (hstep : s.step r = .ok s') : Frozen init s'.fs.root := by
  have heff := Storage.step_effect hstep
  generalize s'.fs.root = root' at heff ⊢
  cases heff with
  | creates hc => exact h.creates_all hc
  | replaces hr hrep hdir _ =>
    rcases hr with rfl | ⟨rfl, data, rfl⟩
    · exact absurd hrep (by rw [hspares]; exact Bool.false_ne_true)
    · exact absurd hrep (by rw [hspares]; exact Bool.false_ne_true)
  | copies hdir hfile => exact h.copies hdir hfile
  | removes hdir hnode hkind => exact h.removes hsheltered hdir hnode hkind
  | moves hren hsource hfrom htarget hto =>
    obtain ⟨hgs, hgt, hentry⟩ := hspares hren
    rw [hsource] at hgs hentry
    rw [htarget] at hgt
    rw [List.dropLast_concat] at hentry
    exact (h.eraseAt hfrom hgs hentry).insertAt hto hgt

lemma openWithOptions_dir {path : Text} {o : GuestOpenOptions} {w : Option HostPath}
    {children : List (Text × FsNode)} (hdir : s.fs.lookupNode path = some (.node w children))
    (hwrite : Storage.GuestOpenOptions.writes o = true) (hrep : replaces s path o = false) :
    s.openWithOptions path o = .ok (.error (), s) := by
  rw [Storage.openWithOptions]
  rw [replaces] at hrep
  split
  · rename_i dir writeable siblings name hlook
    obtain ⟨hpath, hsub⟩ := lookupParentNode_eq_some.mp hlook
    have hchild : child? siblings name = some (.node w children) := by
      rw [Fs.lookupNode, hpath, subtree_append, hsub] at hdir
      change (child? siblings name).bind _ = _ at hdir
      obtain ⟨c, hc, hsubc⟩ := Option.bind_eq_some_iff.mp hdir
      rw [hc, ← hsubc, subtree_nil]
    rw [hchild]
    dsimp only
    split
    · rfl
    · rename_i hnew
      rw [Storage.openAction, if_pos hwrite]
      change s.createFile path o = _
      rw [Storage.createFile]
      split
      · rfl
      · rename_i hcreate
        rw [hlook]
        cases writeable with
        | none => rfl
        | some hostPath =>
          have hnew' : o.createNew = false := by simpa using hnew
          have hcreate' : o.create = true := by simpa [hnew'] using hcreate
          simp [hlook, hchild, refused, hwrite, hnew', hcreate'] at hrep
  · rfl

end

/-- In every run of requests that spare it, the part of the tree that is read-only at the start
stays as it is, but for writeable copies of the archive's files; and opening a directory to write
fails and changes nothing. -/
theorem exec_frozen (host : Host) (sandbox : HostPath) (appBundle : BundleData) (name : Text)
    (readOnlyMode : Bool) (s₀ s : Storage) (rs : List Request)
    (hboot : Fs.new host sandbox appBundle name readOnlyMode = .ok s₀)
    (hspares : Along Storage.step (Spares s₀.fs.root) s₀ rs)
    (hrun : run Storage.step s₀ rs = .ok s) :
    Frozen s₀.fs.root s.fs.root ∧
      ∀ (path : Text) (o : GuestOpenOptions) (w : Option HostPath)
        (children : List (Text × FsNode)), s.fs.lookupNode path = some (.node w children) →
        Storage.GuestOpenOptions.writes o = true → replaces s path o = false →
        s.openWithOptions path o = .ok (.error (), s) := by
  have hsheltered := sheltered_new hboot
  have hstep : ∀ t r t', Frozen s₀.fs.root t.fs.root → Spares s₀.fs.root t r →
      t.step r = .ok t' → Frozen s₀.fs.root t'.fs.root :=
    fun t r t' h hs ht => h.step hsheltered hs ht
  refine ⟨run_preserves (I := fun t => Frozen s₀.fs.root t.fs.root) hstep Frozen.refl hspares hrun,
    ?_⟩
  intro path o w children hdir hwrite hrep
  exact openWithOptions_dir hdir hwrite hrep

def sparesPlainly (s : Storage) : Request → Bool
  | .openWithOptions path o => !replaces s path o
  | .write path _ => !replaces s path writeOptions
  | .rename source target => !renames s source target
  | _ => true

lemma spares_of_plainly {init : FsNode} {s : Storage} {r : Request}
    (h : sparesPlainly s r = true) : Spares init s r := by
  cases r with
  | openWithOptions path o => simpa [sparesPlainly, Spares] using h
  | write path data => simpa [sparesPlainly, Spares] using h
  | rename source target =>
    intro hren
    simp [sparesPlainly, hren] at h
  | _ => trivial

def sampleStart : Checked Storage :=
  Fs.new (.node () []) ["sandbox".toList]
    (.zip [some ⟨"Payload/Foo.app/data".toList, false, [1, 2]⟩] "Payload/Foo.app".toList)
    "Foo.app".toList false

def sampleRequests : List Request :=
  [.openWithOptions "data".toList ⟨true, true, false, false, false, false⟩,
    .write "../Documents/a".toList [3], .createDirAll "../tmp/b/c".toList,
    .remove "../Documents/a".toList, .write "/usr/lib/d".toList [4]]

theorem exec_frozen_sample : ∃ s₀ s, sampleStart = .ok s₀ ∧
    run Storage.step s₀ sampleRequests = .ok s ∧ Frozen s₀.fs.root s.fs.root := by
  have hcheck : succeedsWith (fun s₀ =>
      decide (Along Storage.step (fun s r => sparesPlainly s r = true) s₀ sampleRequests) &&
        succeedsWith (fun _ => true) (run Storage.step s₀ sampleRequests)) sampleStart = true := by
    decide +kernel
  obtain ⟨s₀, hboot, h⟩ := exists_of_succeedsWith hcheck
  obtain ⟨hspares, hok⟩ := Bool.and_eq_true_iff.mp h
  obtain ⟨s, hrun, -⟩ := exists_of_succeedsWith hok
  exact ⟨s₀, s, hboot, hrun, (exec_frozen _ _ _ _ _ s₀ s sampleRequests hboot
    ((of_decide_eq_true hspares).mono fun _ _ => spares_of_plainly) hrun).1⟩

theorem exec_frozen_replaced :
    ¬ ∀ (host : Host) (sandbox : HostPath) (appBundle : BundleData) (name : Text)
      (readOnlyMode : Bool) (s₀ s : Storage) (rs : List Request),
      Fs.new host sandbox appBundle name readOnlyMode = .ok s₀ →
      run Storage.step s₀ rs = .ok s → Frozen s₀.fs.root s.fs.root := by
  intro h
  have hcheck : succeedsWith (fun s₀ =>
      decide (s₀.fs.root.label? ["usr".toList] = some (.inr none)) &&
        succeedsWith (fun s => decide (s.fs.root.label? ["usr".toList] ≠ some (.inr none)))
          (run Storage.step s₀ [.write "/usr".toList [3]])) sampleStart = true := by
    decide +kernel
  obtain ⟨s₀, hboot, hs₀⟩ := exists_of_succeedsWith hcheck
  obtain ⟨hinit, hok⟩ := Bool.and_eq_true_iff.mp hs₀
  obtain ⟨s, hrun, hlost⟩ := exists_of_succeedsWith hok
  exact absurd ((h _ _ _ _ _ s₀ s _ hboot hrun).dir_kept (of_decide_eq_true hinit))
    (of_decide_eq_true hlost)

end TouchHle.Filesystem
