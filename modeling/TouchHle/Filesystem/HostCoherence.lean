import TouchHle.Filesystem.Frozen

namespace TouchHle.Filesystem

open Lib Storage.GuestOpenOptions Tree

def hostPathOf : FsLabel → Option HostPath
  | .inl ⟨.path hostPath, _⟩ => some hostPath
  | .inl _ => none
  | .inr writeable => writeable

structure HostBacked (s : Storage) : Prop where
  file : ∀ p hostPath, s.fs.root.label? p = some (.inl ⟨.path hostPath, true⟩) →
    ∃ content, s.host.stat hostPath = some (.inl content)
  directory : ∀ p hostPath, s.fs.root.label? p = some (.inr (some hostPath)) →
    s.host.stat hostPath = some (.inr ())
  single : ∀ p q l l' hostPath, s.fs.root.label? p = some l → s.fs.root.label? q = some l' →
    hostPathOf l = some hostPath → hostPathOf l' = some hostPath → p = q

structure Healthy (s : Storage) (rs : List Request) : Prop where
  completes : ∃ s', run Storage.step s rs = .ok s'
  backed : ∀ rs₁ rs₂ t, rs = rs₁ ++ rs₂ → run Storage.step s rs₁ = .ok t → HostBacked t

def WellNamed (host : Host) : Prop :=
  ∀ p k, host.label? (p ++ [k]) ≠ none → Proper k

def asksAccess (s : Storage) : Request → Bool
  | .openWithOptions path o =>
    match s.fs.lookupParentNode path with
    | some (_, .node _ children, name) =>
      match Tree.child? children name with
      | some (.leaf ⟨.path _, _⟩) => o.read || o.append || Storage.GuestOpenOptions.writes o
      | _ => true
    | _ => true
  | _ => true

section Placed

variable {P : List Text → FsLabel → Prop} {node child node' : FsNode} {name : Text}

def Placed (P : List Text → FsLabel → Prop) (t : FsNode) : Prop :=
  ∀ q l, t.label? q = some l → P q l

lemma label?_insertChild {w : Option HostPath} {children : List (Text × FsNode)} {k : Text}
    {q : List Text} : (.node w (insertChild name child children) : FsNode).label? (k :: q) =
      if k = name then child.label? q else (.node w children : FsNode).label? (k :: q) := by
  rw [label?_cons, label?_cons]
  change (child? (insertChild name child children) k).bind _ = _
  rw [child?_insertChild]
  split <;> rfl

lemma label?_withChild {k : Text} {q : List Text} (h : withChild node name child = .ok node') :
    node'.label? (k :: q) = if k = name then child.label? q else node.label? (k :: q) := by
  obtain ⟨w, children, rfl, -, rfl⟩ := withChild_cases h
  exact label?_insertChild

lemma placed_of_bare (hbare : ∀ q l, Bare l → P q l) (h : Tree.Everywhere Bare node) :
    Placed P node :=
  fun q l hl => hbare q l (h q l hl)

lemma placed_insertChild {w : Option HostPath} {children : List (Text × FsNode)}
    (hnode : Placed P (.node w children)) (hchild : Placed (fun q => P (name :: q)) child) :
    Placed P (.node w (insertChild name child children)) := by
  intro q l hl
  cases q with
  | nil => exact hnode [] l hl
  | cons k q =>
    rw [label?_insertChild] at hl
    split at hl
    · rename_i hk
      subst hk
      exact hchild q l hl
    · exact hnode (k :: q) l hl

lemma placed_withChild (hnode : Placed P node) (hchild : Placed (fun q => P (name :: q)) child)
    (h : withChild node name child = .ok node') : Placed P node' := by
  obtain ⟨w, children, rfl, -, rfl⟩ := withChild_cases h
  exact placed_insertChild hnode hchild

lemma placed_buildRoot {appDir : FsNode} (hbare : ∀ q l, Bare l → P q l)
    (happ : Placed (fun q => P ("var".toList :: "mobile".toList :: "Applications".toList ::
      fakeUuid :: q)) appDir)
    (h : buildRoot FsNode.dir appDir FsNode.dir = .ok node) : Placed P node := by
  obtain ⟨apps, happs, h⟩ := bind_eq_ok.mp h
  obtain ⟨mobile, hmobile, h⟩ := bind_eq_ok.mp h
  obtain ⟨mobile', hmobile', h⟩ := bind_eq_ok.mp h
  obtain ⟨var, hvar, h⟩ := bind_eq_ok.mp h
  obtain ⟨root', hroot', h⟩ := bind_eq_ok.mp h
  obtain ⟨lib, hlibs, h⟩ := bind_eq_ok.mp h
  obtain ⟨usr, husr, h⟩ := bind_eq_ok.mp h
  have hdir : ∀ Q : List Text → FsLabel → Prop, (∀ q l, Bare l → Q q l) → Placed Q FsNode.dir :=
    fun Q hQ => placed_of_bare hQ frozenDir_dir.all
  have h1 := placed_withChild (P := fun q => P ("var".toList :: "mobile".toList ::
    "Applications".toList :: q)) (hdir _ fun q l => hbare _ l) happ happs
  have h2 := placed_withChild (P := fun q => P ("var".toList :: "mobile".toList :: q))
    (hdir _ fun q l => hbare _ l) h1 hmobile
  have h3 := placed_withChild h2 (hdir _ fun q l => hbare _ l) hmobile'
  have h4 := placed_withChild (P := fun q => P ("var".toList :: q)) (hdir _ fun q l => hbare _ l)
    h3 hvar
  have h5 := placed_withChild (hdir _ hbare) h4 hroot'
  have h6 := placed_withChild (P := fun q => P ("usr".toList :: q)) (hdir _ fun q l => hbare _ l)
    (placed_of_bare (fun q l => hbare _ l) (frozenDir_usrLib hlibs).all) husr
  exact placed_withChild h5 h6 h

end Placed

section ReadOnly

variable {host : Host} {s s' : Storage} {path : Text} {o : GuestOpenOptions}

lemma locate_of_label? (hhost : WellNamed host) {loc p : List Text}
    (h : host.label? (loc ++ p) ≠ none) : host.locate loc p = some (loc ++ p) := by
  induction p generalizing loc with
  | nil => rw [Host.locate, List.append_nil]
  | cons k p ih =>
    obtain ⟨u, hu⟩ := label?_above h
    have hsplit : loc ++ k :: p = (loc ++ [k]) ++ p := by simp
    have hk : host.label? (loc ++ [k]) ≠ none := by
      cases p with
      | nil => exact h
      | cons k' p =>
        rw [hsplit] at h
        obtain ⟨u', hu'⟩ := label?_above h
        simp [hu']
    obtain ⟨h1, h2, h3, -⟩ := hhost loc k hk
    have hdir : host.isDir loc = true := decide_eq_true hu
    rw [Host.locate, if_pos hdir, if_neg (not_or.mpr ⟨h1, h2⟩), if_neg h3, hsplit]
    exact ih (hsplit ▸ h)

lemma locate_append {loc : List Text} {p q : HostPath} :
    host.locate loc (p ++ q) = (host.locate loc p).bind fun l => host.locate l q := by
  induction p generalizing loc with
  | nil => rfl
  | cons c p ih =>
    rw [List.cons_append, Host.locate, Host.locate]
    split
    · split
      · exact ih
      · split
        · exact ih
        · exact ih
    · rfl

structure Still (root : FsNode) (host : Host) : Prop where
  readOnly : Tree.Everywhere FsNode.ReadOnly root
  opens : ∀ p hostPath w, root.label? p = some (.inl ⟨.path hostPath, w⟩) →
    ∃ loc content, host.locate [] hostPath = some loc ∧ host.label? loc = some (.inl content)
  single : ∀ p q l l' hostPath, root.label? p = some l → root.label? q = some l' →
    hostPathOf l = some hostPath → hostPathOf l' = some hostPath → p = q

structure At (root : FsNode) (host : Host) (s : Storage) : Prop where
  root : s.fs.root = root
  host : s.host = host
  cow : s.fs.cowDir = none

variable {root : FsNode}

lemma Still.parent (h : Still root host) (hat : At root host s) {dir : List Text} {name : Text}
    {w : Option HostPath} {children : List (Text × FsNode)}
    (hlook : s.fs.lookupParentNode path = some (dir, .node w children, name)) : w = none := by
  obtain ⟨-, hsub⟩ := lookupParentNode_eq_some.mp hlook
  rw [hat.root] at hsub
  exact h.readOnly dir _ (label?_of_subtree hsub)

lemma Still.createFile (h : Still root host) (hat : At root host s) :
    s.createFile path o = .ok (.error (), s) := by
  rw [Storage.createFile]
  split
  · rfl
  · split
    · rename_i hlook
      cases h.parent hat hlook
    · rfl

lemma openWithOptions_view (s : Storage) (path : Text) (o : GuestOpenOptions) :
    (s.openWithOptions path o = .ok (.error (), s) ∧
      asksAccess s (.openWithOptions path o) = true) ∨
    (s.openWithOptions path o = s.createFile path o ∧
      asksAccess s (.openWithOptions path o) = true) ∨
    ∃ dir w children name node,
      s.fs.lookupParentNode path = some (dir, .node w children, name) ∧
      child? children name = some node := by
  rw [Storage.openWithOptions, asksAccess]
  rcases s.fs.lookupParentNode path with _ | ⟨dir, parent, name⟩
  · exact .inl ⟨rfl, rfl⟩
  · cases parent with
    | leaf f => exact .inl ⟨rfl, rfl⟩
    | node w children =>
      cases hnode : child? children name with
      | none => exact .inr (.inl ⟨by simp only [hnode]; rfl, by simp only [hnode]⟩)
      | some node => exact .inr (.inr ⟨dir, w, children, name, node, rfl, hnode⟩)

lemma openWithOptions_child {dir : List Text} {name : Text} {w : Option HostPath}
    {children : List (Text × FsNode)} {node : FsNode}
    (hlook : s.fs.lookupParentNode path = some (dir, .node w children, name))
    (hnode : child? children name = some node) :
    s.openWithOptions path o = if o.createNew then .ok (.error (), s)
      else s.performOpen path o
        (s.openAction path (writes o) o.append node) := by
  rw [Storage.openWithOptions, hlook]
  simp only [hnode]

lemma asksAccess_child {dir : List Text} {name : Text} {w : Option HostPath}
    {children : List (Text × FsNode)} {node : FsNode}
    (hlook : s.fs.lookupParentNode path = some (dir, .node w children, name))
    (hnode : child? children name = some node) :
    asksAccess s (.openWithOptions path o) = match node with
      | .leaf ⟨.path _, _⟩ => o.read || o.append || writes o
      | _ => true := by
  rw [asksAccess, hlook]
  simp only [hnode]
  cases node with
  | leaf f => obtain ⟨_ | _ | _, _⟩ := f <;> rfl
  | node w children => rfl

lemma valid_of_reads (hread : o.read = true) (happ : o.append = false)
    (hwrite : writes o = false) :
    (existing o).valid = true ∧ o.truncate = false := by
  have htr : o.truncate = false := by
    rw [writes, happ] at hwrite
    simp at hwrite
    exact hwrite.2.1.1
  refine ⟨?_, htr⟩
  simp [existing, HostOpenOptions.valid, hread, happ, hwrite, htr]

lemma Still.open_ok (h : Still root host) (hat : At root host s)
    (hasks : asksAccess s (.openWithOptions path o) = true) :
    ∃ out, s.openWithOptions path o = .ok (out, s) ∧
      (writes o = true → out = .error ()) := by
  rcases openWithOptions_view s path o with ⟨hopen, -⟩ | ⟨hopen, -⟩ | ⟨dir, w, children, name, node,
    hlook, hnode⟩
  · exact ⟨.error (), hopen, fun _ => rfl⟩
  · exact ⟨.error (), hopen.trans (h.createFile hat), fun _ => rfl⟩
  · obtain ⟨-, hsub⟩ := lookupParentNode_eq_some.mp hlook
    rw [hat.root] at hsub
    have hlabel : root.label? (dir ++ [name]) = some node.label := by
      apply label?_of_subtree
      rw [subtree_append, hsub]
      change (child? children name).bind _ = _
      rw [hnode]
      exact subtree_nil
    have hro := h.readOnly _ _ hlabel
    rw [asksAccess_child hlook hnode] at hasks
    rw [openWithOptions_child hlook hnode]
    split
    · exact ⟨.error (), rfl, fun _ => rfl⟩
    · cases node with
      | node w' children' =>
        rw [Storage.openAction]
        split
        · exact ⟨.error (), h.createFile hat, fun _ => rfl⟩
        · rename_i hw
          exact ⟨.ok .directory, rfl, fun hw' => absurd hw' hw⟩
      | leaf f =>
        obtain ⟨location, w'⟩ := f
        obtain rfl : w' = false := hro
        rw [Storage.openAction.eq_def]
        dsimp only
        split
        · rw [hat.cow]
          cases location <;> exact ⟨.error (), h.createFile hat, fun _ => rfl⟩
        · rename_i hacc
          obtain ⟨happ, hwrite⟩ : o.append = false ∧
              writes o = false := by simpa using hacc
          cases location with
          | path hostPath =>
            obtain ⟨loc, content, hloc, hfile⟩ := h.opens _ hostPath false hlabel
            have hread : o.read = true := by simpa [happ, hwrite] using hasks
            obtain ⟨hvalid, htr⟩ := valid_of_reads hread happ hwrite
            refine ⟨.ok (.file loc), ?_, fun hw => absurd hw (by simp [hwrite])⟩
            have hopen : s.host.openFile (existing o) hostPath =
                .ok (loc, s.host) := by
              rw [Host.openFile, hvalid, hat.host, hloc]
              simp only [Bool.true_eq_false, if_false, hfile]
              rw [if_neg (by simp [existing, htr])]
            rw [Storage.performOpen, hopen]
            rfl
          | ipaFileRef file => exact ⟨_, rfl, fun hw => absurd hw (by simp [hwrite])⟩
          | resourceFilePath n => exact ⟨_, rfl, fun hw => absurd hw (by simp [hwrite])⟩

lemma openWithOptions_panics (hasks : asksAccess s (.openWithOptions path o) = false)
    (out : Outcome GuestFile) (s' : Storage) : s.openWithOptions path o ≠ .ok (out, s') := by
  rcases openWithOptions_view s path o with ⟨-, hyes⟩ | ⟨-, hyes⟩ | ⟨dir, w, children, name, node,
    hlook, hnode⟩
  · rw [hyes] at hasks
    cases hasks
  · rw [hyes] at hasks
    cases hasks
  · rw [asksAccess_child hlook hnode] at hasks
    rw [openWithOptions_child hlook hnode]
    cases node with
    | node w' children' => cases hasks
    | leaf f =>
      obtain ⟨location, w'⟩ := f
      cases location with
      | ipaFileRef file => cases hasks
      | resourceFilePath n => cases hasks
      | path hostPath =>
        obtain ⟨⟨hread, happ⟩, hwrite⟩ : (o.read = false ∧ o.append = false) ∧
            writes o = false := by simpa using hasks
        have hnew : o.createNew = false := by
          rw [writes, happ] at hwrite
          simp at hwrite
          exact hwrite.2.2
        have hopen : s.host.openFile (existing o) hostPath =
            .error .other := by
          rw [Host.openFile, if_pos]
          simp [HostOpenOptions.valid, existing, hread, happ, hwrite]
        rw [hnew, if_neg (by simp), Storage.openAction.eq_def]
        dsimp only
        rw [happ, hwrite, if_neg (by simp), Storage.performOpen, hopen]
        rintro ⟨⟩

lemma Still.write_ok (h : Still root host) (hat : At root host s) (data : Content) :
    s.write path data = .ok (.error (), s) := by
  have hasks : asksAccess s (.openWithOptions path writeOptions) = true := by
    rcases openWithOptions_view s path writeOptions with ⟨-, hyes⟩ | ⟨-, hyes⟩ |
      ⟨dir, w, children, name, node, hlook, hnode⟩
    · exact hyes
    · exact hyes
    · rw [asksAccess_child hlook hnode]
      cases node with
      | leaf f => obtain ⟨_ | _ | _, _⟩ := f <;> rfl
      | node w' children' => rfl
  obtain ⟨out, hopen, hout⟩ := h.open_ok hat hasks
  obtain rfl := hout rfl
  change s.openWithOptions path ⟨false, true, false, true, false, true⟩ = _ at hopen
  rw [Storage.write, hopen]
  rfl

lemma Still.remove_ok (h : Still root host) (hat : At root host s) (path : Text) :
    ∃ out, s.remove path = .ok (out, s) := by
  rw [Storage.remove]
  split
  · exact ⟨_, rfl⟩
  · exact ⟨_, rfl⟩
  · exact ⟨_, rfl⟩
  · rename_i hlook
    cases h.parent hat hlook

lemma Still.rename_ok (h : Still root host) (hat : At root host s) (source target : Text) :
    ∃ out, s.rename source target = .ok (out, s) := by
  rw [Storage.rename]
  split
  · exact ⟨_, rfl⟩
  · split
    · rename_i dir parentHostPath children name hsource hlook
      cases h.parent hat hlook
    · exact ⟨_, rfl⟩

lemma Still.createDir_ok (h : Still root host) (hat : At root host s) (path : Text) :
    ∃ e, s.createDir path = .ok (.error e, s) := by
  rw [Storage.createDir]
  split
  · exact ⟨_, rfl⟩
  · exact ⟨_, rfl⟩
  · rename_i dir w children name hlook
    obtain rfl := h.parent hat hlook
    split
    · exact ⟨_, rfl⟩
    · exact ⟨_, rfl⟩

lemma Still.createDirs_ok (h : Still root host) (hat : At root host s) (current : Text)
    (components : List Text) : ∃ out, s.createDirs current components = .ok (out, s) := by
  induction components generalizing current with
  | nil => exact ⟨_, rfl⟩
  | cons component components ih =>
    obtain ⟨e, he⟩ := h.createDir_ok hat (current ++ '/' :: component)
    rw [Storage.createDirs, he, ok_bind]
    cases e with
    | alreadyExist => exact ih _
    | _ => exact ⟨_, rfl⟩

lemma Still.openPath_ok (h : Still root host) (hat : At root host s) (platform : Platform)
    (path : Text) : ∃ out, s.openPath platform path = .ok out := by
  rw [Storage.openPath]
  split
  · exact ⟨_, rfl⟩
  · split
    · rename_i hostPath w hnode
      have hlabel := label?_of_subtree hnode
      rw [hat.root] at hlabel
      obtain ⟨loc, content, hloc, hfile⟩ := h.opens _ hostPath w hlabel
      have hopen : s.host.openFile ⟨true, false, false, false, false⟩ hostPath =
          .ok (loc, s.host) := by
        rw [Host.openFile, hat.host, hloc]
        simp [HostOpenOptions.valid, hfile]
      rw [hopen]
      exact ⟨_, rfl⟩
    · exact ⟨_, rfl⟩
    · exact ⟨_, rfl⟩
    · exact ⟨_, rfl⟩

lemma Still.step_ok (h : Still root host) (r : Request) (hat : At root host s)
    (hasks : asksAccess s r = true) : ∃ s', s.step r = .ok s' ∧ At root host s' := by
  cases r with
  | «open» platform path =>
    obtain ⟨out, hout⟩ := h.openPath_ok hat platform path
    exact ⟨s, by rw [Storage.step, hout]; rfl, hat⟩
  | openWithOptions path o =>
    obtain ⟨out, hout, -⟩ := h.open_ok hat hasks
    exact ⟨s, by rw [Storage.step, hout]; rfl, hat⟩
  | write path data => exact ⟨s, by rw [Storage.step, h.write_ok hat]; rfl, hat⟩
  | remove path =>
    obtain ⟨out, hout⟩ := h.remove_ok hat path
    exact ⟨s, by rw [Storage.step, hout]; rfl, hat⟩
  | rename source target =>
    obtain ⟨out, hout⟩ := h.rename_ok hat source target
    exact ⟨s, by rw [Storage.step, hout]; rfl, hat⟩
  | createDir path =>
    obtain ⟨e, hout⟩ := h.createDir_ok hat path
    exact ⟨s, by rw [Storage.step, hout]; rfl, hat⟩
  | createDirAll path =>
    obtain ⟨out, hout⟩ := h.createDirs_ok hat [] (s.fs.resolve path)
    exact ⟨s, by rw [Storage.step, Storage.createDirAll, hout]; rfl, hat⟩
  | changeWorkingDirectory platform path =>
    refine ⟨_, rfl, ⟨?_, hat.host, ?_⟩⟩
    · exact Storage.changeWorkingDirectory_root.trans hat.root
    · rw [← hat.cow, Fs.changeWorkingDirectory]
      split
      · rfl
      · split <;> rfl

lemma step_panics {r : Request} (hasks : ¬ asksAccess s r = true) (s' : Storage) :
    s.step r ≠ .ok s' := by
  cases r with
  | openWithOptions path o =>
    intro h
    obtain ⟨⟨out, t⟩, hopen, -⟩ := map_eq_ok.mp h
    exact openWithOptions_panics (by simpa using hasks) out t hopen
  | _ => exact absurd rfl hasks

lemma Still.hostBacked (h : Still root host) (hat : At root host s) : HostBacked s := by
  constructor
  · intro p hostPath hl
    rw [hat.root] at hl
    cases h.readOnly p _ hl
  · intro p hostPath hl
    rw [hat.root] at hl
    cases h.readOnly p _ hl
  · intro p q l l' hostPath hp hq
    rw [hat.root] at hp hq
    exact h.single p q l l' hostPath hp hq

lemma Still.healthy (h : Still root host) (hat : At root host s) (rs : List Request) :
    Healthy s rs ↔ Along Storage.step (fun s r => asksAccess s r = true) s rs := by
  have hrun : (∃ s', run Storage.step s rs = .ok s') ↔
      Along Storage.step (fun s r => asksAccess s r = true) s rs :=
    run_ok_iff_along (I := At root host) (fun t r ht hasks => h.step_ok r ht hasks)
      (fun t r t' _ hasks => step_panics hasks t') hat
  constructor
  · exact fun hh => hrun.mp hh.completes
  · intro halong
    refine ⟨hrun.mpr halong, fun rs₁ rs₂ t hsplit ht => ?_⟩
    apply h.hostBacked
    refine run_preserves (p := fun _ _ => True) (fun u r u' hu _ hstep => ?_) hat ?_ ht
    · by_cases hasks : asksAccess u r = true
      · obtain ⟨u'', hu'', hat'⟩ := h.step_ok r hu hasks
        obtain rfl := Except.ok.inj (hu''.symm.trans hstep)
        exact hat'
      · exact absurd hstep (step_panics hasks u')
    · exact along_of_forall fun _ _ => trivial

def Inspected (host : Host) (place : List Text) (base : HostPath) (q : List Text) (l : FsLabel) :
    Prop :=
  FsNode.ReadOnly l ∧ ∀ hostPath, hostPathOf l = some hostPath →
    ∃ p loc content, q = place ++ p ∧ hostPath = base ++ p ∧
      host.locate [] hostPath = some loc ∧ host.label? loc = some (.inl content)

lemma inspected_of_bare {place : List Text} {base : HostPath} {q : List Text} {l : FsLabel}
    (h : Bare l) : Inspected host place base q l := by
  refine ⟨h.readOnly, fun hostPath hl => ?_⟩
  cases l with
  | inl f =>
    obtain ⟨location, w⟩ := f
    cases location with
    | path p => exact absurd rfl (h.2 p)
    | ipaFileRef file => cases hl
    | resourceFilePath n => cases hl
  | inr w =>
    obtain rfl : w = none := h
    cases hl

lemma placed_intoFsNode (hhost : WellNamed host) {bundle : BundleData} {node : FsNode}
    (place : List Text) (h : bundle.intoFsNode host = .ok node) :
    ∃ base, Placed (fun q => Inspected host place base (place ++ q)) node := by
  rcases intoFsNode_cases h with hbare | ⟨base, hdir⟩
  · exact ⟨[], placed_of_bare (fun _ _ => inspected_of_bare) hbare.all⟩
  · refine ⟨base, fun q l hl => ?_⟩
    obtain ⟨loc, u, entries, hloc, hsub, rfl⟩ := fromHostDir_cases hdir
    rw [label?_fromHostNode] at hl
    obtain ⟨l', hl', rfl⟩ := Option.map_eq_some_iff.mp hl
    have hq : host.label? (loc ++ q) = some l' := (label?_append hsub).trans hl'
    cases l' with
    | inr u => exact ⟨rfl, fun hostPath h => by cases h⟩
    | inl content =>
      refine ⟨rfl, fun hostPath h => ?_⟩
      obtain rfl : base ++ q = hostPath := Option.some.inj h
      refine ⟨q, loc ++ q, content, rfl, rfl, ?_, hq⟩
      rw [locate_append, hloc]
      apply locate_of_label? hhost
      rw [hq]
      rintro ⟨⟩

lemma still_newReadOnly (hhost : WellNamed host) {bundle : BundleData} {name : Text}
    (h : newReadOnly host bundle name = .ok s) : Still s.fs.root host ∧ At s.fs.root host s := by
  obtain ⟨node, hnode, h⟩ := bind_eq_ok.mp h
  obtain ⟨root, hroot, h⟩ := bind_eq_ok.mp h
  obtain ⟨hfs, hh⟩ := finish_cases h
  obtain ⟨base, hplaced⟩ := placed_intoFsNode hhost (["var".toList, "mobile".toList,
    "Applications".toList, fakeUuid, name]) hnode
  have happ : Placed (fun q => Inspected host (["var".toList, "mobile".toList,
      "Applications".toList, fakeUuid, name]) base ("var".toList :: "mobile".toList ::
      "Applications".toList :: fakeUuid :: q)) (.node none [(name, node)]) := by
    have hempty : Placed (fun q => Inspected host (["var".toList, "mobile".toList,
        "Applications".toList, fakeUuid, name]) base ("var".toList :: "mobile".toList ::
        "Applications".toList :: fakeUuid :: q)) (.node none []) :=
      placed_of_bare (fun _ _ => inspected_of_bare) frozenDir_dir.all
    exact placed_insertChild hempty hplaced
  have hall := placed_buildRoot (P := Inspected host (["var".toList, "mobile".toList,
      "Applications".toList, fakeUuid, name]) base) (fun _ _ => inspected_of_bare) happ hroot
  rw [hfs]
  refine ⟨⟨fun p l hl => (hall p l hl).1, ?_, ?_⟩, ⟨by rw [hfs], hh, by rw [hfs]⟩⟩
  · intro p hostPath w hl
    obtain ⟨-, loc, content, -, -, hloc, hfile⟩ := (hall p _ hl).2 hostPath rfl
    exact ⟨loc, content, hloc, hfile⟩
  · intro p q l l' hostPath hp hq hl hl'
    obtain ⟨a, -, -, rfl, ha, -, -⟩ := (hall p l hp).2 hostPath hl
    obtain ⟨b, -, -, rfl, hb, -, -⟩ := (hall q l' hq).2 hostPath hl'
    obtain rfl : a = b := List.append_cancel_left (ha.symm.trans hb)
    rfl

end ReadOnly

section App

variable {host : Host} {sandbox : HostPath} {s : Storage}

lemma label?_appChildren {bundleDirName : Text} {bundle : FsNode} {w : Option HostPath}
    {children : List (Text × FsNode)}
    (h : appChildren host sandbox bundleDirName bundle = .ok children) :
    (.node w children : FsNode).label? ["Library".toList] =
      some (.inr (some (sandbox ++ ["Library".toList]))) := by
  rw [appChildren] at h
  simp only [List.foldlM_cons, List.foldlM_nil] at h
  obtain ⟨cs₁, -, h⟩ := bind_eq_ok.mp h
  obtain ⟨cs₂, hlib, h⟩ := bind_eq_ok.mp h
  obtain ⟨cs₃, htmp, h⟩ := bind_eq_ok.mp h
  obtain ⟨library, hlibrary, hlib⟩ := bind_eq_ok.mp hlib
  obtain ⟨tmp, -, htmp⟩ := bind_eq_ok.mp htmp
  obtain rfl := Except.ok.inj hlib
  obtain rfl := Except.ok.inj htmp
  obtain rfl := Except.ok.inj h
  rw [label?_insertChild, if_neg (by decide), label?_insertChild, if_pos rfl, label?_nil,
    (notIpa_fromHostDir hlibrary).2]
  rfl

lemma library_twice {bundle : BundleData} {name : Text}
    (h : newForApp host sandbox bundle name = .ok s) :
    s.fs.root.label? ["var".toList, "mobile".toList, "Library".toList] =
        some (.inr (some (sandbox ++ ["Library".toList]))) ∧
      s.fs.root.label? ["var".toList, "mobile".toList, "Applications".toList, fakeUuid,
        "Library".toList] = some (.inr (some (sandbox ++ ["Library".toList]))) := by
  obtain ⟨host₁, -, h⟩ := bind_eq_ok.mp h
  obtain ⟨bundle, -, h⟩ := bind_eq_ok.mp h
  obtain ⟨children, hchildren, h⟩ := bind_eq_ok.mp h
  obtain ⟨library, hlibrary, h⟩ := bind_eq_ok.mp h
  obtain ⟨host₂, -, h⟩ := bind_eq_ok.mp h
  obtain ⟨rootNode, -, h⟩ := bind_eq_ok.mp h
  obtain ⟨host₃, -, h⟩ := bind_eq_ok.mp h
  obtain ⟨root, hroot, h⟩ := bind_eq_ok.mp h
  rw [(finish_cases h).1]
  obtain ⟨apps, happs, hroot⟩ := bind_eq_ok.mp hroot
  obtain ⟨mobile, hmobile, hroot⟩ := bind_eq_ok.mp hroot
  obtain ⟨mobile', hmobile', hroot⟩ := bind_eq_ok.mp hroot
  obtain ⟨var, hvar, hroot⟩ := bind_eq_ok.mp hroot
  obtain ⟨root', hroot', hroot⟩ := bind_eq_ok.mp hroot
  obtain ⟨lib, -, hroot⟩ := bind_eq_ok.mp hroot
  obtain ⟨usr, -, hroot⟩ := bind_eq_ok.mp hroot
  have hvarPath : ∀ q, root.label? ("var".toList :: "mobile".toList :: q) = mobile'.label? q := by
    intro q
    rw [label?_withChild hroot, if_neg (by decide), label?_withChild hroot', if_pos rfl,
      label?_withChild hvar, if_pos rfl]
  constructor
  · rw [hvarPath, label?_withChild hmobile', if_pos rfl, label?_nil,
      (notIpa_fromHostDir hlibrary).2]
    rfl
  · rw [hvarPath, label?_withChild hmobile', if_neg (by decide), label?_withChild hmobile,
      if_pos rfl, label?_withChild happs, if_pos rfl]
    exact label?_appChildren hchildren

lemma not_hostBacked_newForApp {bundle : BundleData} {name : Text}
    (h : newForApp host sandbox bundle name = .ok s) : ¬ HostBacked s := by
  intro hbacked
  obtain ⟨h1, h2⟩ := library_twice h
  have := hbacked.single _ _ _ _ _ h1 h2 rfl rfl
  simp at this

end App

/-- Requests run without a panic and with the host behind the tree all along exactly in an
inspected app, when each open asks for access; an app that is run never has it so, not even at the
start. -/
theorem exec_healthy_iff (host : Host) (sandbox : HostPath) (appBundle : BundleData) (name : Text)
    (readOnlyMode : Bool) (s₀ : Storage) (rs : List Request) (hhost : WellNamed host)
    (hboot : Fs.new host sandbox appBundle name readOnlyMode = .ok s₀) :
    Healthy s₀ rs ↔ readOnlyMode = true ∧
      Along Storage.step (fun s r => asksAccess s r = true) s₀ rs := by
  cases readOnlyMode with
  | true =>
    obtain ⟨hstill, hat⟩ := still_newReadOnly hhost hboot
    rw [hstill.healthy hat rs]
    exact ⟨fun h => ⟨rfl, h⟩, And.right⟩
  | false =>
    constructor
    · intro hh
      exact absurd (hh.backed [] rs s₀ rfl run_nil) (not_hostBacked_newForApp hboot)
    · exact fun h => by cases h.1

theorem exec_healthy_iff_inspected : ∃ s₀, Fs.new (.node () []) ["sandbox".toList]
      (.zip [some ⟨"Payload/Foo.app/data".toList, false, [1, 2]⟩] "Payload/Foo.app".toList)
      "Foo.app".toList true = .ok s₀ ∧
    Healthy s₀ [.openWithOptions "data".toList ⟨true, false, false, false, false, false⟩,
      .write "/a".toList [1]] := by
  have hhost : WellNamed (.node () []) := by
    intro p k h
    cases p <;> exact absurd rfl h
  have hcheck : succeedsWith (fun s₀ => decide (Along Storage.step
      (fun s r => asksAccess s r = true) s₀
      [.openWithOptions "data".toList ⟨true, false, false, false, false, false⟩,
        .write "/a".toList [1]])) (Fs.new (.node () []) ["sandbox".toList]
      (.zip [some ⟨"Payload/Foo.app/data".toList, false, [1, 2]⟩] "Payload/Foo.app".toList)
      "Foo.app".toList true) = true := by
    decide +kernel
  obtain ⟨s₀, hboot, halong⟩ := exists_of_succeedsWith hcheck
  exact ⟨s₀, hboot, (exec_healthy_iff _ _ _ _ _ s₀ _ hhost hboot).mpr
    ⟨rfl, of_decide_eq_true halong⟩⟩

theorem exec_unhealthy :
    ¬ ∀ (host : Host) (sandbox : HostPath) (appBundle : BundleData) (name : Text)
      (readOnlyMode : Bool) (s₀ : Storage) (rs : List Request), WellNamed host →
      Fs.new host sandbox appBundle name readOnlyMode = .ok s₀ → Healthy s₀ rs := by
  intro h
  have hcheck : succeedsWith (fun s₀ => !succeedsWith (fun _ => true) (run Storage.step s₀
      [.remove "/var/mobile/Library/Preferences".toList,
        .remove "../Library/Preferences".toList])) sampleStart = true := by
    decide +kernel
  obtain ⟨s₀, hboot, hpanic⟩ := exists_of_succeedsWith hcheck
  have hhost : WellNamed (.node () []) := by
    intro p k h
    cases p <;> exact absurd rfl h
  obtain ⟨s', hs'⟩ := (h _ _ _ _ _ s₀ [.remove "/var/mobile/Library/Preferences".toList,
    .remove "../Library/Preferences".toList] hhost hboot).completes
  rw [hs'] at hpanic
  cases hpanic

end TouchHle.Filesystem
