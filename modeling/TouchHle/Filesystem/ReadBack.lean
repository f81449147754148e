import TouchHle.Filesystem.Effects

/-! What is written is read back, as long as nothing is written over it. -/

namespace TouchHle.Filesystem

open Lib List Except

def Keeps (host host' : Host) : Prop :=
  ∀ q content, host.label? q = some (.inl content) → host'.label? q = some (.inl content)

/-- Every file of the host but the one at a place is kept. -/
def KeepsBut (loc : List Text) (host host' : Host) : Prop :=
  ∀ q content, q ≠ loc → host.label? q = some (.inl content) → host'.label? q = some (.inl content)

structure Written (host : Host) (loc : List Text) (content : Content) (host' : Host) : Prop where
  label : host'.label? loc = some (.inl content)
  locate : ∀ l path, host'.locate l path = host.locate l path
  keeps : KeepsBut loc host host'

section

variable {host host' : Host} {loc q : List Text} {c : Host} {path : HostPath}

/-- A place where a file or an empty directory can be put. -/
structure Free (host : Host) (loc : List Text) : Prop where
  parent : loc ≠ [] → host.isDir loc.dropLast
  below : ∀ k p, host.label? (loc ++ k :: p) = none

lemma label?_put (h : Free host loc) (hc : ∀ k p, c.label? (k :: p) = none) :
    (host.put loc c).label? q = if q = loc then some c.label else host.label? q := by
  rw [Tree.put]
  rcases eq_nil_or_concat loc with rfl | ⟨dir, name, rfl⟩
  · cases q with
    | nil => rw [if_pos rfl]; exact Tree.label?_nil
    | cons k p =>
      rw [if_neg (cons_ne_nil k p)]
      exact (hc k p).trans (h.below k p).symm
  · rw [concat_eq_append] at h ⊢
    have hdir := h.parent (by simp)
    rw [dropLast_concat, Host.isDir, decide_eq_true_iff] at hdir
    obtain ⟨node, hnode, hlabel⟩ := Tree.label?_eq_some.mp hdir
    cases node with
    | leaf a => cases hlabel
    | node b cs =>
      rw [getLast?_concat, dropLast_concat]
      change (host.insertAt dir name c).label? q = _
      rw [Tree.label?_insertAt hnode]
      by_cases hpre : dir ++ [name] <+: q
      · obtain ⟨r, rfl⟩ := hpre
        have hdrop : (dir ++ [name] ++ r).drop (dir.length + 1) = r := by simp
        rw [if_pos (prefix_append _ _), hdrop]
        cases r with
        | nil => rw [append_nil, if_pos rfl, Tree.label?_nil]
        | cons k p => rw [if_neg (by simp), hc, h.below]
      · rw [if_neg hpre, if_neg (by rintro rfl; exact hpre prefix_rfl)]

lemma isDir_dropLast (h : host.label? loc ≠ none) (hne : loc ≠ []) : host.isDir loc.dropLast := by
  obtain ⟨dir, name, rfl⟩ := eq_nil_or_concat loc |>.resolve_left hne
  rw [concat_eq_append] at h ⊢
  rw [dropLast_concat]
  exact decide_eq_true (Tree.label?_above h).choose_spec

lemma parent_of_locate {loc' : List Text} (h : host.locate loc path = some loc')
    (hloc : loc ≠ [] → host.isDir loc.dropLast) : loc' ≠ [] → host.isDir loc'.dropLast := by
  induction path generalizing loc with
  | nil =>
    obtain rfl := Option.some.inj h
    exact hloc
  | cons c path ih =>
    rw [Host.locate] at h
    split_ifs at h with hdir h1 h2
    · exact ih h hloc
    · refine ih h fun hne => isDir_dropLast ?_ hne
      cases hl : loc with
      | nil => rw [hl] at hne; exact absurd rfl hne
      | cons k l =>
        have hparent := hloc (hl ▸ cons_ne_nil k l)
        rw [hl, Host.isDir, decide_eq_true_iff] at hparent
        rw [hparent]
        rintro ⟨⟩
    · refine ih h fun _ => ?_
      rwa [dropLast_concat]

lemma free_of_locate (h : host.locate [] path = some loc)
    (hloc : ∀ u, host.label? loc ≠ some (.inr u)) : Free host loc := by
  refine ⟨parent_of_locate h fun hne => absurd rfl hne, fun k p => ?_⟩
  by_contra hbelow
  obtain ⟨u, hu⟩ := Tree.label?_above hbelow
  exact hloc u hu

lemma leaf_below {content : Content} (k : Text) (p : List Text) :
    (Tree.leaf content : Host).label? (k :: p) = none := Tree.label?_cons

/-- The places that a path leads to are the same in two hosts with the same directories. -/
lemma locate_congr (h : ∀ q, host'.isDir q = host.isDir q) :
    host'.locate loc path = host.locate loc path := by
  induction path generalizing loc with
  | nil => rfl
  | cons c path ih =>
    rw [Host.locate, Host.locate, h]
    simp only [ih]

lemma written_put (h : host.locate [] path = some loc)
    (hloc : ∀ u, host.label? loc ≠ some (.inr u)) (content : Content) :
    Written host loc content (host.put loc (.leaf content)) := by
  have hput : ∀ {q}, Tree.label? (host.put loc (.leaf content)) q =
      if q = loc then some (.inl content) else host.label? q :=
    label?_put (free_of_locate h hloc) leaf_below
  refine ⟨by rw [hput, if_pos rfl], fun l path => locate_congr fun q => ?_, fun q c hq hl => ?_⟩
  · rw [Host.isDir.eq_def, Host.isDir, hput]
    split
    · rename_i he
      subst he
      simp [hloc]
    · rfl
  · rw [hput, if_neg hq, hl]

/-- A file that is opened to be written anew is empty then. -/
lemma openFile_truncates {o : HostOpenOptions} (ho : o.truncate = true) (hw : o.write = true)
    (h : host.openFile o path = .ok (loc, host')) :
    host.locate [] path = some loc ∧ Written host loc [] host' := by
  rw [Host.openFile] at h
  split at h
  · cases h
  split at h
  · cases h
  rename_i place hlocate
  have hput : (∀ u, host.label? place ≠ some (.inr u)) → (place, host.put place (.leaf [])) =
      (loc, host') → host.locate [] path = some loc ∧ Written host loc [] host' := by
    intro hplace he
    obtain ⟨rfl, rfl⟩ := Prod.mk.inj he
    exact ⟨hlocate, written_put hlocate hplace []⟩
  split at h
  · rename_i old hold
    exact hput (by simp [hold]) (ok.inj h)
  · simp [hw] at h
  · rename_i hnone
    split at h
    · exact hput (by simp [hnone]) (ok.inj h)
    · cases h

lemma written_writeAll {data : Content} (hlocate : host.locate [] path = some loc)
    (hloc : host.label? loc = some (.inl [])) (h : host.writeAll loc data = .ok host') :
    Written host loc data host' := by
  rw [Host.writeAll, hloc] at h
  obtain rfl := ok.inj h
  rw [drop_nil, append_nil]
  exact written_put hlocate (by simp [hloc]) data

lemma KeepsBut.trans {host'' : Host} (h : KeepsBut loc host host') (h' : KeepsBut loc host' host'') :
    KeepsBut loc host host'' := fun q content hq hl => h' q content hq (h q content hq hl)

lemma Keeps.refl : Keeps host host := fun _ _ hl => hl

lemma Keeps.trans {host'' : Host} (h : Keeps host host') (h' : Keeps host' host'') :
    Keeps host host'' := fun q content hl => h' q content (h q content hl)

lemma Keeps.but (h : Keeps host host') : KeepsBut loc host host' := fun q content _ => h q content

lemma keeps_createDir (h : host.createDir path = .ok host') : Keeps host host' := by
  rw [Host.createDir] at h
  split at h
  · cases h
  rename_i place hlocate
  split at h
  · cases h
  rename_i hnone
  obtain rfl := ok.inj h
  intro q content hl
  rw [label?_put (free_of_locate hlocate (by simp [hnone])) fun k p => rfl, if_neg, hl]
  rintro rfl
  rw [hl] at hnone
  cases hnone

lemma keeps_makeDirs {paths : List HostPath} (h : host.makeDirs paths = (host', true)) :
    Keeps host host' := by
  induction paths generalizing host with
  | nil =>
    obtain ⟨rfl, -⟩ := Prod.mk.inj h
    exact .refl
  | cons path paths ih =>
    rw [Host.makeDirs] at h
    split at h
    · exact ih h
    split at h
    · rename_i hdir
      exact (keeps_createDir hdir).trans (ih h)
    · cases h

lemma label?_remove (h : host.label? loc ≠ none) (hq : ¬ loc <+: q) :
    (host.remove loc).label? q = host.label? q := by
  rw [Tree.remove]
  rcases eq_nil_or_concat loc with rfl | ⟨dir, name, rfl⟩
  · rfl
  · rw [concat_eq_append] at h hq ⊢
    obtain ⟨u, hdir⟩ := Tree.label?_above h
    obtain ⟨node, hnode, hlabel⟩ := Tree.label?_eq_some.mp hdir
    cases node with
    | leaf a => cases hlabel
    | node b cs =>
      rw [getLast?_concat, dropLast_concat]
      change (host.eraseAt dir name).label? q = _
      rw [Tree.label?_eraseAt hnode, if_neg hq]

lemma label?_removeFile {content : Content} (h : host.removeFile path = .ok host')
    (hplace : host.locate [] path ≠ some loc) (hl : host.label? loc = some (.inl content)) :
    host'.label? loc = some (.inl content) := by
  rw [Host.removeFile] at h
  split at h
  · cases h
  rename_i place hlocate
  split at h
  · rename_i old hold
    obtain rfl := ok.inj h
    rw [label?_remove (by simp [hold]) ?_, hl]
    rintro ⟨r, rfl⟩
    cases r with
    | nil => exact hplace (by rw [hlocate, append_nil])
    | cons k r =>
      obtain ⟨u, hu⟩ := Tree.label?_above (t := host) (p := place) (k := k) (q := r) (by simp [hl])
      simp [hold] at hu
  · cases h

lemma label?_removeDir {content : Content} (h : host.removeDir path = .ok host')
    (hl : host.label? loc = some (.inl content)) : host'.label? loc = some (.inl content) := by
  rw [Host.removeDir] at h
  split at h
  · cases h
  rename_i place hlocate
  split at h
  · rename_i u k p hempty
    obtain rfl := ok.inj h
    rw [label?_remove (by simp [Tree.label?_of_subtree hempty]) ?_, hl]
    rintro ⟨r, rfl⟩
    rw [Tree.label?_append hempty] at hl
    cases r <;> cases hl
  · cases h

end

namespace Storage

variable {s s' : Storage} {path : Text} {loc : List Text}

/-- The node at the path is a file that can be written, and lies at a place of the host. -/
def Lies (s : Storage) (path : Text) (loc : List Text) : Prop :=
  ∃ hostPath, s.fs.root.label? (s.fs.resolve path) = some (.inl ⟨.path hostPath, true⟩) ∧
    s.host.locate [] hostPath = some loc

lemma label?_insertFile {dir : List Text} {name : Text} {w : Option HostPath}
    {children : List (Text × FsNode)} {hostPath : HostPath}
    (h : s.fs.lookupParentNode path = some (dir, .node w children, name)) :
    (s.fs.root.insertAt dir name (FsNode.file (.path hostPath) true)).label? (s.fs.resolve path) =
      some (.inl ⟨.path hostPath, true⟩) := by
  obtain ⟨hpath, hdir⟩ := lookupParentNode_eq_some.mp h
  rw [hpath, Tree.label?_insertAt hdir, if_pos prefix_rfl]
  simp [FsNode.file, Tree.label?_nil, Tree.label]

lemma written_writeCow {content : Content} {hostPath : HostPath} {host : Host}
    (h : writeCow s.host hostPath content = (host, true)) (hloc : host.locate [] hostPath = some loc) :
    KeepsBut loc s.host host := by
  rw [writeCow] at h
  split at h
  · obtain ⟨rfl, -⟩ := Prod.mk.inj h
    exact fun _ _ _ hl => hl
  split at h
  · cases h
  rename_i host₁ hdirs
  split at h
  · cases h
  rename_i host₂ hwrite
  obtain ⟨rfl, -⟩ := Prod.mk.inj h
  obtain ⟨⟨place, host₃⟩, hopen, hwrite⟩ := bind_eq_ok.mp hwrite
  obtain ⟨hlocate, hempty⟩ := openFile_truncates rfl rfl hopen
  have hwritten := written_writeAll ((hempty.locate _ _).trans hlocate) hempty.label hwrite
  rw [hwritten.locate, hempty.locate, hlocate] at hloc
  obtain rfl := Option.some.inj hloc
  exact (keeps_makeDirs hdirs).but.trans (hempty.keeps.trans hwritten.keeps)

lemma opened_file {t : Storage} (h : Opened s path writeOptions (.ok (.file loc)) t) :
    t.Lies path loc ∧ t.host.label? loc = some (.inl []) ∧ KeepsBut loc s.host t.host := by
  cases h with
  | other h => exact absurd rfl (h loc)
  | @found dir name w children hostPath writeable _ _ hlook hnode hw hopen =>
    obtain rfl := hw rfl
    obtain ⟨hlocate, hempty⟩ := openFile_truncates rfl rfl hopen
    obtain ⟨hpath, hdir⟩ := lookupParentNode_eq_some.mp hlook
    refine ⟨⟨hostPath, ?_, (hempty.locate _ _).trans hlocate⟩, hempty.label, hempty.keeps⟩
    change s.fs.root.label? (s.fs.resolve path) = _
    rw [hpath, Tree.label?_append hdir, Tree.label?_cons]
    change (Tree.child? children name).bind _ = _
    rw [hnode]
    exact Tree.label?_nil
  | created hlook _ hopen =>
    obtain ⟨hlocate, hempty⟩ := openFile_truncates rfl rfl hopen
    exact ⟨⟨_, label?_insertFile hlook, (hempty.locate _ _).trans hlocate⟩, hempty.label,
      hempty.keeps⟩
  | copied hlook _ _ hcow hopen =>
    obtain ⟨hlocate, hempty⟩ := openFile_truncates rfl rfl hopen
    exact ⟨⟨_, label?_insertFile hlook, (hempty.locate _ _).trans hlocate⟩, hempty.label,
      (written_writeCow hcow hlocate).trans hempty.keeps⟩

/-- The place that a write takes the data to. -/
def writesAt (s : Storage) (path : Text) : Option (List Text) :=
  match s.openWithOptions path writeOptions with
  | .ok (.ok (.file loc), _) => some loc
  | _ => none

lemma write_ok {data : Content} (h : s.write path data = .ok (.ok (), s')) :
    ∃ loc, s.writesAt path = some loc ∧ s'.Lies path loc ∧
      s'.host.label? loc = some (.inl data) ∧ KeepsBut loc s.host s'.host := by
  obtain ⟨⟨out, t⟩, hopen, h⟩ := bind_eq_ok.mp h
  split at h
  · rename_i loc t' heq
    obtain ⟨rfl, rfl⟩ := Prod.mk.inj heq
    split at h
    · rename_i host hw
      obtain rfl : (⟨t.fs, host⟩ : Storage) = s' := by simpa using h
      obtain ⟨⟨hostPath, hlabel, hlocate⟩, hempty, hkeeps⟩ := opened_file (opened hopen)
      have hwritten := written_writeAll hlocate hempty hw
      refine ⟨loc, ?_, ⟨hostPath, hlabel, (hwritten.locate _ _).trans hlocate⟩, hwritten.label,
        hkeeps.trans hwritten.keeps⟩
      change s.openWithOptions path writeOptions = _ at hopen
      rw [writesAt, hopen]
    · simp at h
  · simp at h

lemma read_of_opens {platform : Platform} {content : Content}
    (hopen : s.openPath platform path = .ok (.ok (.file loc)))
    (hloc : s.host.label? loc = some (.inl content)) : s.read platform path = .ok (.ok content) := by
  rw [read, hopen, ok_bind]
  simp only [contents, Host.readToEnd, hloc]
  rfl

lemma opens_of_lies {platform : Platform} {resolved : AbsolutePath} {content : Content}
    (hlies : s.Lies path loc) (hloc : s.host.label? loc = some (.inl content))
    (hcase : s.fs.resolveCaseInsensitivePath platform path = some resolved)
    (hsame : s.fs.resolve resolved.text = s.fs.resolve path) :
    s.openPath platform path = .ok (.ok (.file loc)) := by
  obtain ⟨hostPath, hlabel, hlocate⟩ := hlies
  have hnode : s.fs.lookupNode resolved.text = some (.leaf ⟨.path hostPath, true⟩) := by
    rw [Fs.lookupNode, hsame]
    exact Tree.subtree_of_leaf hlabel
  rw [openPath, hcase]
  simp only [hnode]
  have hopen : s.host.openFile ⟨true, false, false, false, false⟩ hostPath = .ok (loc, s.host) := by
    rw [Host.openFile, hlocate]
    simp [HostOpenOptions.valid, hloc]
  rw [hopen]
  rfl

/-- The requests that do not reach the file at a place. -/
def Spares (loc : List Text) (s : Storage) : Request → Prop
  | .write path data =>
    succeedsWith (fun e => e.1.isOk) (s.write path data) = true ∧ s.writesAt path ≠ some loc
  | .remove path => ¬ s.Lies path loc
  | .openWithOptions _ _ | .rename _ _ => False
  | _ => True

instance : Decidable (s.Lies path loc) :=
  decidable_of_iff ((match s.fs.root.label? (s.fs.resolve path) with
    | some (.inl ⟨.path hostPath, true⟩) => s.host.locate [] hostPath
    | _ => none) = some loc) <| by
    rw [Lies]
    split <;> simp_all

instance decidableSpares : (r : Request) → Decidable (Spares loc s r)
  | .write path data => inferInstanceAs (Decidable (succeedsWith _ (s.write path data) = true ∧ _))
  | .remove path => inferInstanceAs (Decidable (¬ s.Lies path loc))
  | .openWithOptions _ _ | .rename _ _ => inferInstanceAs (Decidable False)
  | .open _ _ | .createDir _ | .createDirAll _ | .changeWorkingDirectory _ _ =>
    inferInstanceAs (Decidable True)

section

variable {content : Content} {done : Except FsError Unit}

lemma remove_keeps (h : s.remove path = .ok (done, s')) (hlies : ¬ s.Lies path loc)
    (hl : s.host.label? loc = some (.inl content)) : s'.host.label? loc = some (.inl content) := by
  rw [remove.eq_def] at h
  split at h
  case h_4 dir _ children name hlook =>
    obtain ⟨hpath, hdir⟩ := lookupParentNode_eq_some.mp hlook
    split at h
    case h_3 hostPath hnode =>
      obtain ⟨host, hhost, h⟩ := bind_eq_ok.mp h
      obtain ⟨-, rfl⟩ := ok_pair_inj h
      refine label?_removeFile (handleOpenErr_eq_ok.mp hhost) (fun hplace => hlies ?_) hl
      refine ⟨hostPath, ?_, hplace⟩
      rw [hpath, Tree.label?_append hdir, Tree.label?_cons]
      change (Tree.child? children name).bind _ = _
      rw [hnode, Option.bind_some, Tree.label?_nil]
      rfl
    case h_4 => cases h
    case h_7 hostPath _ =>
      obtain ⟨host, hhost, h⟩ := bind_eq_ok.mp h
      obtain ⟨-, rfl⟩ := ok_pair_inj h
      exact label?_removeDir (handleOpenErr_eq_ok.mp hhost) hl
    all_goals
      obtain ⟨-, rfl⟩ := ok_pair_inj h
      exact hl
  all_goals
    obtain ⟨-, rfl⟩ := ok_pair_inj h
    exact hl

lemma createDir_keeps (h : s.createDir path = .ok (done, s')) : Keeps s.host s'.host := by
  have hsame : ∀ {d}, (.ok (d, s) : Checked _) = .ok (done, s') → Keeps s.host s'.host := by
    intro d h
    obtain ⟨-, rfl⟩ := ok_pair_inj h
    exact .refl
  rw [createDir] at h
  split at h
  case h_3 =>
    split at h
    case isFalse =>
      split at h
      case h_2 =>
        obtain ⟨-, -, h⟩ := bind_eq_ok.mp h
        obtain ⟨host, hhost, h⟩ := bind_eq_ok.mp h
        obtain ⟨-, rfl⟩ := ok_pair_inj h
        rw [createHostDir] at hhost
        split at hhost
        · rename_i hcreate
          obtain rfl := ok.inj hhost
          exact keeps_createDir hcreate
        · obtain rfl := ok.inj hhost
          exact .refl
        · cases hhost
      all_goals exact hsame h
    all_goals exact hsame h
  all_goals exact hsame h

lemma createDirs_keeps {current : Text} {components : List Text}
    (h : s.createDirs current components = .ok (done, s')) : Keeps s.host s'.host := by
  induction components generalizing s current with
  | nil =>
    obtain ⟨-, rfl⟩ := ok_pair_inj h
    exact .refl
  | cons component components ih =>
    obtain ⟨⟨out, t⟩, hdir, h⟩ := bind_eq_ok.mp h
    have hfirst := createDir_keeps hdir
    split at h
    case h_3 =>
      obtain ⟨-, rfl⟩ := ok_pair_inj h
      exact hfirst
    all_goals
      rename_i heq
      obtain ⟨-, rfl⟩ := Prod.mk.inj heq
      exact hfirst.trans (ih h)

/-- One step keeps the file. -/
lemma step_keeps {r : Request} (hr : Spares loc s r) (h : s.step r = .ok s')
    (hl : s.host.label? loc = some (.inl content)) : s'.host.label? loc = some (.inl content) := by
  cases r with
  | «open» platform path =>
    obtain ⟨out, -, rfl⟩ := map_eq_ok.mp h
    exact hl
  | openWithOptions path o => exact hr.elim
  | write path data =>
    obtain ⟨hok, hne⟩ := hr
    obtain ⟨⟨done, t⟩, ht, hdone⟩ := exists_of_succeedsWith hok
    rw [step, ht] at h
    obtain rfl := ok.inj h
    cases done with
    | error _ => cases hdone
    | ok _ =>
      obtain ⟨place, hplace, -, -, hkeeps⟩ := write_ok ht
      exact hkeeps loc content (fun he => hne (he ▸ hplace)) hl
  | remove path =>
    obtain ⟨⟨done, t⟩, hremove, rfl⟩ := map_eq_ok.mp h
    exact remove_keeps hremove hr hl
  | rename source target => exact hr.elim
  | createDir path =>
    obtain ⟨⟨done, t⟩, hdir, rfl⟩ := map_eq_ok.mp h
    exact createDir_keeps hdir loc content hl
  | createDirAll path =>
    obtain ⟨⟨done, t⟩, hdirs, rfl⟩ := map_eq_ok.mp h
    exact createDirs_keeps hdirs loc content hl
  | changeWorkingDirectory platform path =>
    obtain rfl := ok.inj h
    exact hl

end

/-- A successful write is read back at once, and by every later path to its file until a request
reaches the file. -/
theorem read_write {data : Content} {s₁ : Storage}
    (hwrite : s.write path data = .ok (.ok (), s₁)) :
    ∃ loc, s.writesAt path = some loc ∧
      (∀ platform resolved, s₁.fs.resolveCaseInsensitivePath platform path = some resolved →
        s₁.fs.resolve resolved.text = s₁.fs.resolve path →
        s₁.read platform path = .ok (.ok data)) ∧
      ∀ s₂ rs, Along step (Spares loc) s₁ rs → run step s₁ rs = .ok s₂ →
        ∀ platform path', s₂.openPath platform path' = .ok (.ok (.file loc)) →
          s₂.read platform path' = .ok (.ok data) := by
  obtain ⟨loc, hat, hlies, hlabel, -⟩ := write_ok hwrite
  refine ⟨loc, hat, fun platform resolved hcase hsame => ?_, fun s₂ rs hspares hrun platform path'
    hopen => ?_⟩
  · exact read_of_opens (opens_of_lies hlies hlabel hcase hsame) hlabel
  · have hkept : s₂.host.label? loc = some (.inl data) :=
      run_preserves (I := fun s => s.host.label? loc = some (.inl data))
        (fun s r s' hl hr h => step_keeps hr h hl) hlabel hspares hrun
    exact read_of_opens hopen hkept

def sampleStore : Storage :=
  ⟨⟨.node none [("d".toList, .node (some ["d".toList]) [])], ⟨"/d".toList, rfl⟩, none⟩,
    .node () [("d".toList, .node () [])]⟩

def samplePlatform : Platform := ⟨id, fun _ names => names, fun _ => [], fun _ _ => .rfl⟩

def sampleLater : List Request :=
  [.createDir "e".toList, .write "e/b".toList [2], .remove "e/b".toList]

theorem read_write_sample : ∃ s₁ s₂, sampleStore.write "a".toList [1] = .ok (.ok (), s₁) ∧
    s₁.read samplePlatform "a".toList = .ok (.ok [1]) ∧ run step s₁ sampleLater = .ok s₂ ∧
    s₂.read samplePlatform "e/../a".toList = .ok (.ok [1]) := by
  have hcheck : succeedsWith (fun e => decide (e.1 = .ok ()) &&
      (e.2.fs.resolveCaseInsensitivePath samplePlatform "a".toList).any
        (fun r => decide (e.2.fs.resolve r.text = e.2.fs.resolve "a".toList)) &&
      decide (sampleStore.writesAt "a".toList = some ["d".toList, "a".toList]) &&
      decide (Along step (Spares ["d".toList, "a".toList]) e.2 sampleLater) &&
      succeedsWith (fun s₂ => succeedsWith (fun out =>
        decide (out = .ok (.file ["d".toList, "a".toList])))
          (s₂.openPath samplePlatform "e/../a".toList)) (run step e.2 sampleLater))
      (sampleStore.write "a".toList [1]) = true := by
    decide +kernel
  obtain ⟨⟨done, s₁⟩, hwrite, h⟩ := exists_of_succeedsWith hcheck
  simp only [Bool.and_eq_true, decide_eq_true_iff, Option.any_eq_true] at h
  obtain ⟨⟨⟨⟨rfl, resolved, hcase, hsame⟩, hat⟩, hspares⟩, hlater⟩ := h
  obtain ⟨s₂, hrun, hlater⟩ := exists_of_succeedsWith hlater
  obtain ⟨out, hopen, hout⟩ := exists_of_succeedsWith hlater
  obtain rfl := of_decide_eq_true hout
  obtain ⟨loc, hloc, hnow, hthen⟩ := read_write hwrite
  obtain rfl := Option.some.inj (hloc.symm.trans hat)
  exact ⟨s₁, s₂, hwrite, hnow _ resolved hcase hsame, hrun,
    hthen s₂ sampleLater hspares hrun _ _ hopen⟩

end Storage

end TouchHle.Filesystem
