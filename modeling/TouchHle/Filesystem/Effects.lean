import TouchHle.Lib.Runs
import TouchHle.Filesystem.Boot

namespace TouchHle.Filesystem

open Lib Except Option

def writeOptions : GuestOpenOptions := ⟨false, true, false, true, false, true⟩

def refused (s : Storage) (write append : Bool) : FsNode → Bool
  | .leaf ⟨.ipaFileRef _, false⟩ => (append || write) && s.fs.cowDir.isNone
  | .leaf ⟨_, false⟩ => append || write
  | .leaf ⟨_, true⟩ => false
  | .node _ _ => write

def replaces (s : Storage) (path : Text) (o : GuestOpenOptions) : Bool :=
  match s.fs.lookupParentNode path with
  | some (_, .node (some _) children, name) =>
    match Tree.child? children name with
    | none => false
    | some node =>
      o.create && !o.createNew && refused s (Storage.GuestOpenOptions.writes o) o.append node
  | _ => false

def renames (s : Storage) (source target : Text) : Bool :=
  source ≠ target &&
    match (s.fs.lookupNode source).bind Storage.writeablePath, s.fs.lookupParentNode target with
    | some _, some (_, .node (some _) _, _) => true
    | _, _ => false

def Creates (root root' : FsNode) : Prop :=
  ∃ dir name hostPath children node, root.subtree dir = some (.node (some hostPath) children) ∧
    Tree.child? children name = none ∧ Proper name ∧ root' = root.insertAt dir name node

inductive Effect (s : Storage) : Request → FsNode → Prop
  | creates {r root'} (h : Relation.ReflTransGen Creates s.fs.root root') : Effect s r root'
  | replaces {r path o dir name hostPath children node}
      (hr : r = .openWithOptions path o ∨ o = writeOptions ∧ ∃ data, r = .write path data)
      (h : replaces s path o = true) (hdir : s.fs.root.subtree dir = some (.node (some hostPath) children))
      (hname : Proper name) :
      Effect s r (s.fs.root.insertAt dir name node)
  | copies {r dir name writeable children file hostPath}
      (hdir : s.fs.root.subtree dir = some (.node writeable children))
      (hfile : Tree.child? children name = some (.leaf ⟨.ipaFileRef file, false⟩)) :
      Effect s r (s.fs.root.insertAt dir name (FsNode.file (.path hostPath) true))
  | removes {r dir name hostPath children node}
      (hdir : s.fs.root.subtree dir = some (.node (some hostPath) children))
      (hnode : Tree.child? children name = some node)
      (hkind : (∃ p, node = .leaf ⟨.path p, true⟩) ∨ ∃ p, node = .node (some p) []) :
      Effect s r (s.fs.root.eraseAt dir name)
  | moves {source target fromDir fromName toDir toName fromWriteable fromChildren hostPath children node}
      (h : renames s source target = true)
      (hsource : s.fs.resolve source = fromDir ++ [fromName])
      (hfrom : s.fs.root.subtree fromDir = some (.node fromWriteable fromChildren))
      (htarget : s.fs.resolve target = toDir ++ [toName])
      (hto : (s.fs.root.eraseAt fromDir fromName).subtree toDir = some (.node (some hostPath) children)) :
      Effect s (.rename source target)
        ((s.fs.root.eraseAt fromDir fromName).insertAt toDir toName node)

section

variable {fs : Fs} {path : Text} {dir : List Text} {name : Text} {node : FsNode}

lemma lookupParentNode_eq_some :
    fs.lookupParentNode path = some (dir, node, name) ↔
      fs.resolve path = dir ++ [name] ∧ fs.root.subtree dir = some node := by
  rw [Fs.lookupParentNode, bind_eq_some_iff]
  constructor
  · rintro ⟨⟨dir', name'⟩, hsplit, h⟩
    obtain ⟨node', hnode, heq⟩ := map_eq_some_iff.mp h
    obtain ⟨rfl, rfl, rfl⟩ : dir' = dir ∧ node' = node ∧ name' = name := by simpa using heq
    exact ⟨splitLast_eq_some.mp hsplit, hnode⟩
  · rintro ⟨hpath, hnode⟩
    exact ⟨(dir, name), splitLast_eq_some.mpr hpath, by rw [hnode]; rfl⟩

lemma proper_of_lookupParentNode (h : fs.lookupParentNode path = some (dir, node, name)) :
    Proper name := by
  suffices h : name ∈ fs.resolve path from resolvePath_proper _ h
  rw [(lookupParentNode_eq_some.mp h).1]
  exact List.mem_append_right _ List.mem_cons_self

end

namespace Storage

variable {s s' : Storage} {path : Text} {o : GuestOpenOptions} {out : Outcome GuestFile}

lemma handleOpenErr_eq_ok {α : Type} {x : Except IoError α} {a : α} :
    handleOpenErr x = .ok a ↔ x = .ok a := by
  cases x <;> simp [handleOpenErr]

inductive Opened (s : Storage) (path : Text) (o : GuestOpenOptions) :
    Outcome GuestFile → Storage → Prop
  | failed {host} : Opened s path o (.error ()) ⟨s.fs, host⟩
  | other {file} (h : ∀ loc, file ≠ .file loc) : Opened s path o (.ok file) s
  | found {dir name writeable children hostPath w loc host}
      (hlook : s.fs.lookupParentNode path = some (dir, .node writeable children, name))
      (hnode : Tree.child? children name = some (.leaf ⟨.path hostPath, w⟩))
      (hw : (o.append || GuestOpenOptions.writes o) = true → w = true)
      (hopen : s.host.openFile (GuestOpenOptions.existing o) hostPath = .ok (loc, host)) :
      Opened s path o (.ok (.file loc)) ⟨s.fs, host⟩
  | created {dir name children hostPath loc host}
      (hlook : s.fs.lookupParentNode path = some (dir, .node (some hostPath) children, name))
      (hnode : Tree.child? children name = none ∨ replaces s path o = true)
      (hopen : s.host.openFile
        ⟨o.read, GuestOpenOptions.writes o, o.append, true, o.truncate⟩ (hostPath ++ [name]) =
          .ok (loc, host)) :
      Opened s path o (.ok (.file loc)) ⟨{ s.fs with
        root := s.fs.root.insertAt dir name
          (FsNode.file (.path (hostPath ++ [name])) true) }, host⟩
  | copied {dir name writeable children file cowBase host loc host'}
      (hlook : s.fs.lookupParentNode path = some (dir, .node writeable children, name))
      (hnode : Tree.child? children name = some (.leaf ⟨.ipaFileRef file, false⟩))
      (hcow : s.fs.cowDir = some cowBase)
      (hwrite : writeCow s.host (cowHostPath cowBase path)
        (if s.host.stat (cowHostPath cowBase path) = none then file.decompressed else []) =
          (host, true))
      (hopen : host.openFile (GuestOpenOptions.existing o) (cowHostPath cowBase path) =
        .ok (loc, host')) :
      Opened s path o (.ok (.file loc)) ⟨{ s.fs with
        root := s.fs.root.insertAt dir name
          (FsNode.file (.path (cowHostPath cowBase path)) true) }, host'⟩

lemma opened_createFile (h : s.createFile path o = .ok (out, s'))
    (hnode : ∀ dir hostPath children name,
      s.fs.lookupParentNode path = some (dir, .node (some hostPath) children, name) →
      (o.create || o.createNew) = true →
      Tree.child? children name = none ∨ replaces s path o = true) : Opened s path o out s' := by
  rw [createFile] at h
  split at h
  · obtain ⟨rfl, rfl⟩ : .error () = out ∧ s = s' := by simpa using h
    exact .failed
  · rename_i hcreate
    split at h
    · rename_i dir hostPath children name hlook
      obtain ⟨-, -, h⟩ := bind_eq_ok.mp h
      obtain ⟨⟨loc, host⟩, hopen, h⟩ := bind_eq_ok.mp h
      obtain ⟨rfl, rfl⟩ : .ok (.file loc) = out ∧ _ = s' := by simpa using h
      apply Opened.created hlook _ (handleOpenErr_eq_ok.mp hopen)
      apply hnode dir hostPath children name hlook
      cases hc : o.create <;> cases hn : o.createNew <;> simp [hc, hn] at hcreate ⊢
    · obtain ⟨rfl, rfl⟩ : .error () = out ∧ s = s' := by simpa using h
      exact .failed

lemma opened (h : s.openWithOptions path o = .ok (out, s')) : Opened s path o out s' := by
  rw [openWithOptions] at h
  split at h
  · rename_i dir writeable children name hlook
    split at h
    · rename_i hnone
      apply opened_createFile h
      intro dir' hostPath' children' name' hlook' _
      obtain ⟨rfl, ⟨rfl, rfl⟩, rfl⟩ : dir = dir' ∧ (writeable = some hostPath' ∧
          children = children') ∧ name = name' := by simpa using hlook.symm.trans hlook'
      exact .inl hnone
    · rename_i node hnode
      split at h
      · obtain ⟨rfl, rfl⟩ : .error () = out ∧ s = s' := by simpa using h
        exact .failed
      · rename_i hnew
        have hrep : (o.create || o.createNew) = true →
            refused s (GuestOpenOptions.writes o) o.append node = true → ∀ dir' hostPath' children' name', s.fs.lookupParentNode path =
            some (dir', .node (some hostPath') children', name') → replaces s path o = true := by
          intro hc href dir' hostPath' children' name' hlook'
          obtain ⟨rfl, ⟨rfl, rfl⟩, rfl⟩ : dir = dir' ∧ (writeable = some hostPath' ∧
              children = children') ∧ name = name' := by simpa using hlook.symm.trans hlook'
          have hnew' : o.createNew = false := by simpa using hnew
          have hcreate : o.create = true := by simpa [hnew'] using hc
          simp [replaces, hlook, hnode, href, hnew', hcreate]
        cases node with
        | node writeable' children' =>
          rw [openAction] at h
          split at h
          · rename_i hw
            apply opened_createFile h
            intro dir' hostPath' children'' name' hlook' hc
            exact .inr (hrep hc hw dir' hostPath' children'' name' hlook')
          · obtain ⟨rfl, rfl⟩ : .ok .directory = out ∧ s = s' := by simpa [performOpen] using h
            exact .other (by rintro _ ⟨⟩)
        | leaf f =>
          obtain ⟨location, w⟩ := f
          rw [openAction.eq_def] at h
          dsimp only at h
          split at h
          · rename_i hro
            obtain ⟨rfl, hacc⟩ : w = false ∧ (o.append || GuestOpenOptions.writes o) = true := by
              simpa using hro
            split at h
            · rename_i file cowBase hcow
              rw [performOpen] at h
              split at h
              · obtain ⟨rfl, rfl⟩ : .error () = out ∧ _ = s' := by simpa using h
                exact .failed
              · rename_i host hwrite
                obtain ⟨⟨loc, host'⟩, hopen, h⟩ := bind_eq_ok.mp h
                obtain ⟨rfl, rfl⟩ : .ok (.file loc) = out ∧ _ = s' := by simpa using h
                rw [replaceNode, hlook]
                exact .copied hlook hnode hcow hwrite (handleOpenErr_eq_ok.mp hopen)
            · rename_i location _ _ hloc
              apply opened_createFile h
              intro dir' hostPath' children' name' hlook' hc
              refine .inr (hrep hc ?_ dir' hostPath' children' name' hlook')
              cases location with
              | path p => exact hacc
              | ipaFileRef file =>
                cases hcow : s.fs.cowDir with
                | none => simp [refused, hcow, hacc]
                | some cowBase => exact absurd hcow (hloc file cowBase rfl)
              | resourceFilePath n => exact hacc
          · rename_i hro
            have hw : (o.append || GuestOpenOptions.writes o) = true → w = true := by
              intro hacc
              simpa [hacc] using hro
            split at h
            · rename_i hostPath
              obtain ⟨⟨loc, host⟩, hopen, h⟩ := bind_eq_ok.mp h
              obtain ⟨rfl, rfl⟩ : .ok (.file loc) = out ∧ _ = s' := by simpa using h
              exact .found hlook hnode hw (handleOpenErr_eq_ok.mp hopen)
            · obtain ⟨rfl, rfl⟩ : .ok (.ipaBundleFile _) = out ∧ s = s' := by
                simpa [performOpen] using h
              exact .other (by rintro _ ⟨⟩)
            · obtain ⟨rfl, rfl⟩ : .ok (.resourceFile _) = out ∧ s = s' := by
                simpa [performOpen] using h
              exact .other (by rintro _ ⟨⟩)
  · obtain ⟨rfl, rfl⟩ : .error () = out ∧ s = s' := by simpa using h
    exact .failed

lemma Opened.effect {r : Request}
    (hr : r = .openWithOptions path o ∨ o = writeOptions ∧ ∃ data, r = .write path data)
    (h : Opened s path o out s') : Effect s r s'.fs.root := by
  cases h with
  | failed => exact .creates .refl
  | other => exact .creates .refl
  | found => exact .creates .refl
  | created hlook hnode hopen =>
    obtain ⟨-, hdir⟩ := lookupParentNode_eq_some.mp hlook
    rcases hnode with hnode | hnode
    · apply Effect.creates
      exact .single ⟨_, _, _, _, _, hdir, hnode, proper_of_lookupParentNode hlook, rfl⟩
    · exact .replaces hr hnode hdir (proper_of_lookupParentNode hlook)
  | copied hlook hnode =>
    obtain ⟨-, hdir⟩ := lookupParentNode_eq_some.mp hlook
    exact .copies hdir hnode

lemma write_cases {data : Content} {done : Outcome Unit} (h : s.write path data = .ok (done, s')) :
    ∃ out t, Opened s path writeOptions out t ∧ s'.fs = t.fs ∧
      (done = .ok () → ∃ loc, out = .ok (.file loc) ∧ t.host.writeAll loc data = .ok s'.host) := by
  obtain ⟨⟨out, t⟩, hopen, h⟩ := bind_eq_ok.mp h
  refine ⟨out, t, opened hopen, ?_⟩
  split at h
  · rename_i loc t' heq
    obtain ⟨rfl, rfl⟩ := Prod.mk.inj heq
    split at h
    · rename_i host hw
      obtain ⟨rfl, rfl⟩ : .ok () = done ∧ _ = s' := by simpa using h
      exact ⟨rfl, fun _ => ⟨loc, rfl, hw⟩⟩
    · obtain ⟨rfl, rfl⟩ : .error () = done ∧ t = s' := by simpa using h
      exact ⟨rfl, (by rintro ⟨⟩)⟩
  · rename_i t' _ heq
    obtain ⟨rfl, rfl⟩ : .error () = done ∧ _ = s' := by simpa using h
    obtain ⟨-, rfl⟩ := Prod.mk.inj heq
    exact ⟨rfl, (by rintro ⟨⟩)⟩

lemma remove_effect {done : Except FsError Unit} (h : s.remove path = .ok (done, s')) :
    Effect s (.remove path) s'.fs.root := by
  have hsame : ∀ {e : FsError}, (.error e, s) = (done, s') → Effect s (.remove path) s'.fs.root := by
    intro e he
    obtain ⟨-, rfl⟩ := Prod.mk.inj he
    exact .creates .refl
  rw [remove] at h
  split at h
  · exact hsame (ok.inj h)
  · exact hsame (ok.inj h)
  · exact hsame (ok.inj h)
  · rename_i dir hostPath children name hlook
    obtain ⟨-, hdir⟩ := lookupParentNode_eq_some.mp hlook
    split at h
    · exact hsame (ok.inj h)
    · exact hsame (ok.inj h)
    · rename_i p hnode
      obtain ⟨host, -, h⟩ := bind_eq_ok.mp h
      obtain ⟨-, rfl⟩ : .ok () = done ∧ _ = s' := by simpa using h
      exact .removes hdir hnode (.inl ⟨p, rfl⟩)
    · simp at h
    · exact hsame (ok.inj h)
    · exact hsame (ok.inj h)
    · rename_i p hnode
      obtain ⟨host, -, h⟩ := bind_eq_ok.mp h
      obtain ⟨-, rfl⟩ : .ok () = done ∧ _ = s' := by simpa using h
      exact .removes hdir hnode (.inr ⟨p, rfl⟩)

lemma createDir_creates {done : Except FsError Unit} (h : s.createDir path = .ok (done, s')) :
    Relation.ReflTransGen Creates s.fs.root s'.fs.root := by
  have hsame : ∀ {e : FsError}, (.error e, s) = (done, s') →
      Relation.ReflTransGen Creates s.fs.root s'.fs.root := by
    intro e he
    obtain ⟨-, rfl⟩ := Prod.mk.inj he
    exact .refl
  rw [createDir] at h
  split at h
  · exact hsame (ok.inj h)
  · exact hsame (ok.inj h)
  · rename_i dir writeable children name hlook
    split at h
    · exact hsame (ok.inj h)
    · rename_i hnone
      split at h
      · exact hsame (ok.inj h)
      · obtain ⟨-, -, h⟩ := bind_eq_ok.mp h
        obtain ⟨host, -, h⟩ := bind_eq_ok.mp h
        obtain ⟨-, rfl⟩ : .ok () = done ∧ _ = s' := by simpa using h
        obtain ⟨-, hdir⟩ := lookupParentNode_eq_some.mp hlook
        have habsent := not_isSome_iff_eq_none.mp hnone
        exact .single ⟨_, _, _, _, _, hdir, habsent, proper_of_lookupParentNode hlook, rfl⟩

lemma createDirs_creates {current : Text} {components : List Text} {done : Except FsError Unit}
    (h : s.createDirs current components = .ok (done, s')) :
    Relation.ReflTransGen Creates s.fs.root s'.fs.root := by
  induction components generalizing s current with
  | nil =>
    obtain ⟨-, rfl⟩ : .ok () = done ∧ s = s' := by simpa [createDirs] using h
    exact .refl
  | cons component components ih =>
    obtain ⟨⟨r, t⟩, hdir, h⟩ := bind_eq_ok.mp h
    have hfirst := createDir_creates hdir
    split at h
    · rename_i heq
      obtain ⟨-, rfl⟩ := Prod.mk.inj heq
      exact hfirst.trans (ih h)
    · rename_i heq
      obtain ⟨-, rfl⟩ := Prod.mk.inj heq
      exact hfirst.trans (ih h)
    · obtain ⟨-, rfl⟩ : r = done ∧ t = s' := by simpa using h
      exact hfirst

lemma renames_of {source target : Text} {hostPath hostPath' : HostPath} {dir : List Text}
    {children : List (Text × FsNode)} {name : Text} (hne : source ≠ target)
    (hsource : (s.fs.lookupNode source).bind writeablePath = some hostPath)
    (htarget : s.fs.lookupParentNode target = some (dir, .node (some hostPath') children, name)) :
    renames s source target = true := by
  simp [renames, hne, hsource, htarget]

lemma rename_effect {source target : Text} {done : Outcome Unit}
    (h : s.rename source target = .ok (done, s')) :
    Effect s (.rename source target) s'.fs.root := by
  have hsame : ∀ {r : Outcome Unit}, (r, s) = (done, s') →
      Effect s (.rename source target) s'.fs.root := by
    intro r hr
    obtain ⟨-, rfl⟩ := Prod.mk.inj hr
    exact .creates .refl
  rw [rename] at h
  split at h
  · exact hsame (ok.inj h)
  · rename_i hne
    split at h
    · rename_i fromHostPath toDir toParentHostPath toChildren toName hsource htarget
      split at h
      · exact hsame (ok.inj h)
      · obtain ⟨fs, hmove, h⟩ := bind_eq_ok.mp h
        obtain ⟨-, rfl⟩ : .ok () = done ∧ _ = s' := by simpa using h
        rw [moveNode] at hmove
        split at hmove
        · rename_i fromDir writeable children fromName hfrom
          obtain ⟨node, hnode, hmove⟩ := bind_eq_ok.mp hmove
          dsimp only at hmove
          split at hmove
          · rename_i toDir' writeable' children' toName' hto
            obtain rfl := ok.inj hmove
            obtain ⟨hsrc, hfromDir⟩ := lookupParentNode_eq_some.mp hfrom
            obtain ⟨htgt, htoDir⟩ := lookupParentNode_eq_some.mp htarget
            obtain ⟨htgt', htoDir'⟩ := lookupParentNode_eq_some.mp hto
            obtain ⟨rfl, rfl⟩ : toDir = toDir' ∧ toName = toName' := by
              simpa using htgt.symm.trans htgt'
            -- the target's parent is not below what was taken out
            have hlabel := Tree.label?_of_subtree htoDir'
            change (s.fs.root.eraseAt fromDir fromName).label? toDir = _ at hlabel
            rw [Tree.label?_eraseAt hfromDir] at hlabel
            split at hlabel
            · cases hlabel
            · rw [Tree.label?_of_subtree htoDir] at hlabel
              obtain rfl : some toParentHostPath = writeable' := by simpa [Tree.label] using hlabel
              exact .moves (renames_of hne hsource htarget) hsrc hfromDir htgt' htoDir'
          · simp at hmove
        · simp at hmove
    · exact hsame (ok.inj h)

lemma changeWorkingDirectory_root {fs : Fs} {platform : Platform} :
    (fs.changeWorkingDirectory platform path).2.root = fs.root := by
  rw [Fs.changeWorkingDirectory]
  split
  · rfl
  · split <;> rfl

lemma step_effect {r : Request} (h : s.step r = .ok s') : Effect s r s'.fs.root := by
  cases r with
  | «open» platform path =>
    obtain ⟨out, -, rfl⟩ := map_eq_ok.mp h
    exact .creates .refl
  | openWithOptions path o =>
    obtain ⟨⟨out, t⟩, hopen, rfl⟩ := map_eq_ok.mp h
    exact (opened hopen).effect (.inl rfl)
  | write path data =>
    obtain ⟨⟨done, t⟩, hwrite, rfl⟩ := map_eq_ok.mp h
    obtain ⟨out, t', hopen, hfs, -⟩ := write_cases hwrite
    rw [hfs]
    exact hopen.effect (.inr ⟨rfl, data, rfl⟩)
  | remove path =>
    obtain ⟨⟨done, t⟩, hremove, rfl⟩ := map_eq_ok.mp h
    exact remove_effect hremove
  | rename source target =>
    obtain ⟨⟨done, t⟩, hrename, rfl⟩ := map_eq_ok.mp h
    exact rename_effect hrename
  | createDir path =>
    obtain ⟨⟨done, t⟩, hdir, rfl⟩ := map_eq_ok.mp h
    exact .creates (createDir_creates hdir)
  | createDirAll path =>
    obtain ⟨⟨done, t⟩, hdirs, rfl⟩ := map_eq_ok.mp h
    exact .creates (createDirs_creates hdirs)
  | changeWorkingDirectory platform path =>
    obtain rfl := ok.inj h
    rw [changeWorkingDirectory_root]
    exact .creates .refl

end Storage

end TouchHle.Filesystem
