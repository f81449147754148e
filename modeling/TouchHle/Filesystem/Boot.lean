import TouchHle.Filesystem.Operations

namespace TouchHle.Filesystem

open Lib List Except Option Tree

def fakeUuid : Text := "00000000-0000-0000-0000-000000000000".toList

def applications : List Text := marker

def dylibsDir : Text := "touchHLE_dylibs".toList

def usrLibFiles : List (Text × Text) :=
  [("libgcc_s.1.dylib".toList, "libgcc_s.1.dylib".toList),
    ("libstdc++.6.dylib".toList, "libstdc++.6.0.9.dylib".toList),
    ("libstdc++.6.0.9.dylib".toList, "libstdc++.6.0.9.dylib".toList),
    ("libc++.1.dylib".toList, "libc++.1.dylib".toList),
    ("libz.1.2.3.dylib".toList, "libz.1.2.3.dylib".toList),
    ("libz.1.dylib".toList, "libz.1.2.3.dylib".toList),
    ("libz.dylib".toList, "libz.1.2.3.dylib".toList),
    ("libz.1.1.3.dylib".toList, "libz.1.2.3.dylib".toList),
    ("libiconv.2.dylib".toList, "libiconv.2.dylib".toList),
    ("libc++abi.dylib".toList, "libc++abi.dylib".toList),
    ("libsqlite3.dylib".toList, "libsqlite3.dylib".toList),
    ("libsqlite3.0.dylib".toList, "libsqlite3.dylib".toList)]

def usrLib : Checked FsNode :=
  usrLibFiles.foldlM (fun node e =>
    withChild node e.1 (FsNode.file (.resourceFilePath (dylibsDir ++ '/' :: e.2)) false)) FsNode.dir

def expect : Host × Bool → Checked Host
  | (host, true) => .ok host
  | (_, false) => .error .assertion

def cleanDir (host : Host) (path : HostPath) : Host :=
  match host.removeDirAll path with
  | .ok host => host
  | .error _ => host

def prepareHome (host : Host) (sandbox : HostPath) : Checked Host := do
  let host ← expect (host.createDirAll (sandbox ++ ["Documents".toList]))
  let host ← expect (host.createDirAll (sandbox ++ ["Library".toList]))
  let host := cleanDir host (sandbox ++ ["tmp".toList])
  let host ← expect (host.createDirAll (sandbox ++ ["tmp".toList]))
  expect (host.createDirAll (sandbox ++ ["Library".toList, "Preferences".toList]))

def buildRoot (root appDir library : FsNode) : Checked FsNode := do
  let applicationsNode ← withChild FsNode.dir fakeUuid appDir
  let mobile ← withChild FsNode.dir "Applications".toList applicationsNode
  let mobile ← withChild mobile "Library".toList library
  let var ← withChild FsNode.dir "mobile".toList mobile
  let root ← withChild root "var".toList var
  let usr ← withChild FsNode.dir "lib".toList (← usrLib)
  withChild root "usr".toList usr

def appChildren (host : Host) (sandbox : HostPath) (bundleDirName : Text) (bundle : FsNode) :
    Checked (List (Text × FsNode)) :=
  ["Documents".toList, "Library".toList, "tmp".toList].foldlM (fun children dir => do
    let node ← fromHostDir host (sandbox ++ [dir]) true
    return Tree.insertChild dir node children) [(bundleDirName, bundle)]

def bundleGuestPath (bundleDirName : Text) : Text :=
  absolutePath (applications ++ [fakeUuid]) ++ '/' :: bundleDirName

def homeRelative (name : Text) : AbsolutePath :=
  ⟨bundleGuestPath name, rfl⟩

def finish (root : FsNode) (cowDir : Option HostPath) (bundleDirName : Text) (host : Host) :
    Checked Storage := do
  let fs : Fs := ⟨root, homeRelative bundleDirName, cowDir⟩
  assert (fs.lookupNode (bundleGuestPath bundleDirName)).isSome
  return ⟨fs, host⟩

def newReadOnly (host : Host) (appBundle : BundleData) (bundleDirName : Text) :
    Checked Storage := do
  let bundle ← appBundle.intoFsNode host
  let root ← buildRoot FsNode.dir (.node none [(bundleDirName, bundle)]) FsNode.dir
  finish root none bundleDirName host

def newForApp (host : Host) (sandbox : HostPath) (appBundle : BundleData) (bundleDirName : Text) :
    Checked Storage := do
  let host ← prepareHome host sandbox
  let bundle ← appBundle.intoFsNode host
  let children ← appChildren host sandbox bundleDirName bundle
  let library ← fromHostDir host (sandbox ++ ["Library".toList]) true
  let host := cleanDir host (sandbox ++ ["root".toList])
  let host ← expect (host.createDirAll (sandbox ++ ["root".toList]))
  let rootNode ← fromHostDir host (sandbox ++ ["root".toList]) true
  let host ← expect (host.createDirAll (sandbox ++ ["AppSandbox".toList]))
  let root ← buildRoot rootNode (.node (some (sandbox ++ ["AppSandbox".toList])) children) library
  let cow := host.createDirAll (sandbox ++ ["bundle_cow".toList])
  finish root (if cow.2 then some (sandbox ++ ["bundle_cow".toList]) else none) bundleDirName cow.1

def Fs.new (host : Host) (sandbox : HostPath) (appBundle : BundleData) (bundleDirName : Text)
    (readOnlyMode : Bool) : Checked Storage :=
  if readOnlyMode then newReadOnly host appBundle bundleDirName
  else newForApp host sandbox appBundle bundleDirName

inductive Request
  | open (platform : Platform) (path : Text)
  | openWithOptions (path : Text) (options : GuestOpenOptions)
  | write (path : Text) (data : Content)
  | remove (path : Text)
  | rename (source target : Text)
  | createDir (path : Text)
  | createDirAll (path : Text)
  | changeWorkingDirectory (platform : Platform) (path : Text)

def Storage.step (s : Storage) : Request → Checked Storage
  | .open platform path => (fun _ => s) <$> s.openPath platform path
  | .openWithOptions path options => Prod.snd <$> s.openWithOptions path options
  | .write path data => Prod.snd <$> s.write path data
  | .remove path => Prod.snd <$> s.remove path
  | .rename source target => Prod.snd <$> s.rename source target
  | .createDir path => Prod.snd <$> s.createDir path
  | .createDirAll path => Prod.snd <$> s.createDirAll path
  | .changeWorkingDirectory platform path =>
    .ok { s with fs := (s.fs.changeWorkingDirectory platform path).2 }

def Sheltered (t : FsNode) : Prop :=
  ∀ dir name file w, t.label? (dir ++ [name]) = some (.inl ⟨.ipaFileRef file, w⟩) →
    t.label? dir = some (.inr none)

def NotIpa : FsLabel → Prop
  | .inl file => ∀ f, file.location ≠ .ipaFileRef f
  | .inr _ => True

def Bare : FsLabel → Prop
  | .inl file => file.writeable = false ∧ ∀ hostPath, file.location ≠ .path hostPath
  | .inr writeable => writeable = none

lemma Bare.readOnly {l : FsLabel} (h : Bare l) : FsNode.ReadOnly l := by
  cases l with
  | inl file => exact h.1
  | inr writeable => exact h

section Host

variable {writeable : Bool}

lemma child?_fromHostEntries {entries : List (Text × Host)} {hostPath : HostPath} {k : Text} :
    child? (fromHostEntries writeable entries hostPath) k =
      (child? entries k).map fun c => fromHostNode writeable c (hostPath ++ [k]) := by
  induction entries with
  | nil => rfl
  | cons e entries ih =>
    obtain ⟨name, entry⟩ := e
    rw [fromHostEntries]
    by_cases hk : k = name
    · subst hk
      rw [child?_cons_eq (k, _), child?_cons_eq (k, entry), map_some]
    · rw [child?_cons_ne (e := (name, _)) hk, child?_cons_ne (e := (name, entry)) hk, ih]

def hostLabel (writeable : Bool) (hostPath : HostPath) : Content ⊕ Unit → FsLabel
  | .inl _ => .inl ⟨.path hostPath, writeable⟩
  | .inr _ => .inr (if writeable then some hostPath else none)

lemma label?_fromHostNode (host : Host) (hostPath : HostPath) (p : List Text) :
    (fromHostNode writeable host hostPath).label? p =
      (host.label? p).map (hostLabel writeable (hostPath ++ p)) := by
  induction p generalizing host hostPath with
  | nil =>
    rw [label?_nil, label?_nil, append_nil]
    cases host <;> rfl
  | cons k p ih =>
    rw [label?_cons, label?_cons]
    cases host with
    | leaf content => rfl
    | node u entries =>
      change (child? (fromHostEntries writeable entries hostPath) k).bind _ =
        ((child? entries k).bind _).map _
      rw [child?_fromHostEntries]
      cases child? entries k with
      | none => rfl
      | some c =>
        rw [map_some, bind_some, bind_some, ih, append_assoc,
          singleton_append]

lemma everywhere_fromHostNode {P : FsLabel → Prop} (hP : ∀ q l, P (hostLabel writeable q l))
    (host : Host) (hostPath : HostPath) :
    Tree.Everywhere P (fromHostNode writeable host hostPath) := by
  intro p l hl
  rw [label?_fromHostNode] at hl
  obtain ⟨l', -, rfl⟩ := map_eq_some_iff.mp hl
  exact hP _ l'

lemma fromHostDir_cases {host : Host} {hostPath : HostPath} {node : FsNode}
    (h : fromHostDir host hostPath writeable = .ok node) :
    ∃ loc u entries, host.locate [] hostPath = some loc ∧
      host.subtree loc = some (.node u entries) ∧
      node = fromHostNode writeable (.node u entries) hostPath := by
  obtain ⟨loc, hloc, h⟩ := bind_eq_ok.mp h
  split at h
  · rename_i u entries hsub
    exact ⟨loc, u, entries, unwrap_eq_ok.mp hloc, hsub, (ok.inj h).symm⟩
  · simp at h

lemma notIpa_fromHostDir {host : Host} {hostPath : HostPath} {node : FsNode}
    (h : fromHostDir host hostPath writeable = .ok node) :
    Tree.Everywhere NotIpa node ∧ node.label = .inr (if writeable then some hostPath else none) := by
  obtain ⟨loc, u, entries, -, -, rfl⟩ := fromHostDir_cases h
  refine ⟨everywhere_fromHostNode ?_ _ _, rfl⟩
  intro q l
  cases l with
  | inl content => exact fun f => (by rintro ⟨⟩)
  | inr u => trivial

end Host

section Builder

variable {f : FsNode → Checked FsNode} {node node' : FsNode} {P : FsLabel → Prop}

structure FrozenDir (P : FsLabel → Prop) (node : FsNode) : Prop where
  label : node.label = .inr none
  all : Tree.Everywhere P node

lemma FrozenDir.mono {Q : FsLabel → Prop} (hPQ : ∀ l, P l → Q l) (h : FrozenDir P node) :
    FrozenDir Q node :=
  ⟨h.label, h.all.mono hPQ⟩

lemma frozenDir_dir : FrozenDir Bare FsNode.dir :=
  ⟨rfl, everywhere_node.mpr ⟨rfl, fun _ _ h => by cases h⟩⟩

lemma everywhere_insert {w : Option HostPath} {children : List (Text × FsNode)} {name : Text}
    {child : FsNode} (h : Tree.Everywhere P (.node w children : FsNode))
    (hchild : Tree.Everywhere P child) :
    Tree.Everywhere P (.node w (insertChild name child children) : FsNode) := by
  obtain ⟨hw, hcs⟩ := everywhere_node.mp h
  exact everywhere_insertChild hw hchild hcs

lemma withChild_cases {name : Text} {child : FsNode} (h : withChild node name child = .ok node') :
    ∃ w children, node = .node w children ∧ child? children name = none ∧
      node' = .node w (insertChild name child children) := by
  cases node with
  | leaf file => cases h
  | node w children =>
    obtain ⟨_, habsent, h⟩ := bind_eq_ok.mp h
    obtain rfl : .node w (insertChild name child children) = node' := by simpa using h
    exact ⟨w, children, rfl, isNone_iff_eq_none.mp (assert_eq_ok.mp habsent), rfl⟩

lemma frozenDir_withChild {name : Text} {child : FsNode} (h : FrozenDir P node)
    (hchild : Tree.Everywhere P child) (hwith : withChild node name child = .ok node') :
    FrozenDir P node' := by
  obtain ⟨w, children, rfl, -, rfl⟩ := withChild_cases hwith
  exact ⟨h.label, everywhere_insert h.all hchild⟩

lemma everywhere_makeDirectories
    (hf : ∀ n n', Tree.Everywhere Bare n → f n = .ok n' → Tree.Everywhere Bare n')
    {parts : List Text} (h : Tree.Everywhere Bare node)
    (hmake : makeDirectories f parts node = .ok node') : Tree.Everywhere Bare node' := by
  induction parts generalizing node node' with
  | nil => exact hf node node' h hmake
  | cons part parts ih =>
    cases node with
    | leaf file => cases hmake
    | node w children =>
      obtain ⟨-, -, hmake⟩ := bind_eq_ok.mp hmake
      obtain ⟨next, hnext, hmake⟩ := bind_eq_ok.mp hmake
      obtain rfl : .node w (insertChild part next children) = node' := by simpa using hmake
      refine everywhere_insert h (ih ?_ hnext)
      cases hl : child? children part with
      | none => exact frozenDir_dir.all
      | some c => exact (everywhere_node.mp h).2 part c hl

lemma label_makeDirectories (hf : ∀ n n', f n = .ok n' → n'.label = n.label) {parts : List Text}
    (hmake : makeDirectories f parts node = .ok node') : node'.label = node.label := by
  cases parts with
  | nil => exact hf node node' hmake
  | cons part parts =>
    cases node with
    | leaf file => cases hmake
    | node w children =>
      obtain ⟨-, -, hmake⟩ := bind_eq_ok.mp hmake
      obtain ⟨next, -, hmake⟩ := bind_eq_ok.mp hmake
      obtain rfl : .node w (insertChild part next children) = node' := by simpa using hmake
      rfl

lemma insertFile_cases {name : Text} {file : FsNode} (h : insertFile name file node = .ok node') :
    ∃ w children, node = .node w children ∧
      node' = .node w (insertChild name file children) := by
  cases node with
  | leaf f => cases h
  | node w children => exact ⟨w, children, rfl, (ok.inj h).symm⟩

lemma bare_ipaFile (file : IpaFileRef) :
    Tree.Everywhere Bare (FsNode.file (.ipaFileRef file) false) :=
  everywhere_leaf.mpr ⟨rfl, fun _ => (by rintro ⟨⟩)⟩

lemma bare_resourceFile (name : Text) :
    Tree.Everywhere Bare (FsNode.file (.resourceFilePath name) false) :=
  everywhere_leaf.mpr ⟨rfl, fun _ => (by rintro ⟨⟩)⟩

lemma frozenDir_addEntry {bundlePath : Text} {e : Option ZipEntry × ℕ} (h : FrozenDir Bare node)
    (hadd : addEntry bundlePath node e = .ok node') : FrozenDir Bare node' := by
  obtain ⟨entry, index⟩ := e
  cases entry with
  | none =>
    obtain rfl := ok.inj hadd
    exact h
  | some entry =>
    rw [addEntry] at hadd
    split at hadd
    · obtain rfl := ok.inj hadd
      exact h
    · split at hadd
      · constructor
        · rw [label_makeDirectories (fun n n' hn => by rw [ok.inj hn]) hadd]
          exact h.label
        · exact everywhere_makeDirectories (fun n n' hn heq => ok.inj heq ▸ hn) h.all hadd
      · obtain ⟨⟨parentName, name⟩, -, hadd⟩ := bind_eq_ok.mp hadd
        obtain ⟨-, -, hadd⟩ := bind_eq_ok.mp hadd
        constructor
        · rw [label_makeDirectories _ hadd]
          · exact h.label
          · intro n n' hn
            obtain ⟨w, children, rfl, rfl⟩ := insertFile_cases hn
            rfl
        · refine everywhere_makeDirectories (fun n n' hn heq => ?_) h.all hadd
          obtain ⟨w, children, rfl, rfl⟩ := insertFile_cases heq
          exact everywhere_insert hn (bare_ipaFile _)

lemma intoFsNode_cases {host : Host} {bundle : BundleData} (h : bundle.intoFsNode host = .ok node) :
    FrozenDir Bare node ∨ ∃ path, fromHostDir host path false = .ok node := by
  cases bundle with
  | hostDirectory path => exact .inr ⟨path, h⟩
  | zip entries bundlePath =>
    left
    exact foldlM_preserves (fun _ _ _ hn hadd => frozenDir_addEntry hn hadd) frozenDir_dir h

lemma frozenDir_intoFsNode {host : Host} {bundle : BundleData}
    (h : bundle.intoFsNode host = .ok node) : FrozenDir FsNode.ReadOnly node := by
  rcases intoFsNode_cases h with hbare | ⟨path, hdir⟩
  · exact hbare.mono fun _ => Bare.readOnly
  · obtain ⟨loc, u, entries, -, -, rfl⟩ := fromHostDir_cases hdir
    refine ⟨rfl, everywhere_fromHostNode ?_ _ _⟩
    intro q l
    cases l <;> rfl

lemma frozenDir_usrLib (h : usrLib = .ok node) : FrozenDir Bare node :=
  foldlM_preserves
    (fun _ _ _ hn hwith => frozenDir_withChild hn (bare_resourceFile _) hwith) frozenDir_dir h

end Builder

section Sheltered

variable {t : FsNode}

lemma sheltered_of_readOnly (h : Tree.Everywhere FsNode.ReadOnly t) : Sheltered t := by
  intro dir name file w hfile
  have habove : t.label? (dir ++ name :: []) ≠ none := by
    rw [hfile]
    rintro ⟨⟩
  obtain ⟨b, hb⟩ := label?_above habove
  obtain rfl : b = none := h dir _ hb
  exact hb

lemma sheltered_of_notIpa (h : Tree.Everywhere NotIpa t) : Sheltered t :=
  fun dir name file _ hfile => absurd rfl (h (dir ++ [name]) _ hfile file)

lemma sheltered_node {w : Option HostPath} {children : List (Text × FsNode)}
    (h : ∀ k c, child? children k = some c → Sheltered c ∧ NotIpa c.label) :
    Sheltered (.node w children) := by
  intro dir name file w' hfile
  cases dir with
  | nil =>
    rw [nil_append, label?_cons] at hfile
    obtain ⟨c, hc, hl⟩ := bind_eq_some_iff.mp hfile
    rw [label?_nil] at hl
    have hipa := (h name c hc).2
    rw [some.inj hl] at hipa
    exact absurd rfl (hipa file)
  | cons k dir =>
    rw [cons_append, label?_cons] at hfile
    obtain ⟨c, hc, hl⟩ := bind_eq_some_iff.mp hfile
    rw [label?_cons, hc]
    exact (h k c hc).1 dir name file w' hl

structure ShelteredDir (node : FsNode) : Prop where
  label : ∃ w, node.label = .inr w
  children : ∀ k c, Tree.child? node.children k = some c → Sheltered c ∧ NotIpa c.label

lemma ShelteredDir.sheltered {node : FsNode} (h : ShelteredDir node) : Sheltered node := by
  obtain ⟨w, hw⟩ := h.label
  cases node with
  | leaf file => cases hw
  | node w' children => exact sheltered_node h.children

lemma ShelteredDir.notIpa {node : FsNode} (h : ShelteredDir node) : NotIpa node.label := by
  obtain ⟨w, hw⟩ := h.label
  rw [hw]
  trivial

lemma shelteredDir_insertChild {w : Option HostPath} {children : List (Text × FsNode)} {name : Text}
    {child : FsNode} (h : ShelteredDir (.node w children)) (hchild : Sheltered child)
    (hipa : NotIpa child.label) :
    ShelteredDir (.node w (insertChild name child children)) := by
  refine ⟨⟨w, rfl⟩, fun k c hc => ?_⟩
  change child? (insertChild name child children) k = some c at hc
  rw [child?_insertChild] at hc
  split at hc
  · obtain rfl := some.inj hc
    exact ⟨hchild, hipa⟩
  · exact h.children k c hc

lemma shelteredDir_withChild {node node' child : FsNode} {name : Text} (h : ShelteredDir node)
    (hchild : Sheltered child) (hipa : NotIpa child.label)
    (hwith : withChild node name child = .ok node') : ShelteredDir node' := by
  obtain ⟨w, children, rfl, -, rfl⟩ := withChild_cases hwith
  exact shelteredDir_insertChild h hchild hipa

lemma shelteredDir_dir : ShelteredDir FsNode.dir :=
  ⟨⟨none, rfl⟩, fun _ _ h => by cases h⟩

lemma FrozenDir.notIpa {P : FsLabel → Prop} {node : FsNode} (h : FrozenDir P node) : NotIpa node.label := by
  rw [h.label]
  trivial

lemma shelteredDir_fromHostDir {host : Host} {hostPath : HostPath} {writeable : Bool}
    {node : FsNode} (h : fromHostDir host hostPath writeable = .ok node) : ShelteredDir node := by
  obtain ⟨hnode, hw⟩ := notIpa_fromHostDir h
  cases node with
  | leaf file => cases hw
  | node w' children =>
    have hcs := (everywhere_node.mp hnode).2
    exact ⟨⟨w', rfl⟩, fun k c hc => ⟨sheltered_of_notIpa (hcs k c hc), hcs k c hc [] _
      label?_nil⟩⟩

lemma shelteredDir_buildRoot {root appDir library node : FsNode} (hroot : ShelteredDir root)
    (happ : ShelteredDir appDir) (hlib : ShelteredDir library)
    (h : buildRoot root appDir library = .ok node) : ShelteredDir node := by
  obtain ⟨apps, happs, h⟩ := bind_eq_ok.mp h
  obtain ⟨mobile, hmobile, h⟩ := bind_eq_ok.mp h
  obtain ⟨mobile', hmobile', h⟩ := bind_eq_ok.mp h
  obtain ⟨var, hvar, h⟩ := bind_eq_ok.mp h
  obtain ⟨root', hroot', h⟩ := bind_eq_ok.mp h
  obtain ⟨lib, hlibs, h⟩ := bind_eq_ok.mp h
  obtain ⟨usr, husr, h⟩ := bind_eq_ok.mp h
  have h1 := shelteredDir_withChild shelteredDir_dir happ.sheltered happ.notIpa happs
  have h2 := shelteredDir_withChild shelteredDir_dir h1.sheltered h1.notIpa hmobile
  have h3 := shelteredDir_withChild h2 hlib.sheltered hlib.notIpa hmobile'
  have h4 := shelteredDir_withChild shelteredDir_dir h3.sheltered h3.notIpa hvar
  have h5 := shelteredDir_withChild hroot h4.sheltered h4.notIpa hroot'
  have hfrozen := frozenDir_usrLib hlibs
  have h6 := shelteredDir_withChild shelteredDir_dir (sheltered_of_readOnly (hfrozen.all.mono fun _ => Bare.readOnly)) hfrozen.notIpa husr
  exact shelteredDir_withChild h5 h6.sheltered h6.notIpa h

lemma shelteredDir_appChildren {host : Host} {sandbox : HostPath} {bundleDirName : Text}
    {bundle : FsNode} {children : List (Text × FsNode)} {w : Option HostPath}
    (hbundle : FrozenDir FsNode.ReadOnly bundle)
    (h : appChildren host sandbox bundleDirName bundle = .ok children) :
    ShelteredDir (.node w children) := by
  refine foldlM_preserves (I := fun children => ShelteredDir (.node w children)) ?_ ?_ h
  · intro cs dir cs' hcs hdir
    obtain ⟨node, hnode, hdir⟩ := bind_eq_ok.mp hdir
    obtain rfl : insertChild dir node cs = cs' := by simpa using hdir
    have hn := shelteredDir_fromHostDir hnode
    exact shelteredDir_insertChild hcs hn.sheltered hn.notIpa
  · have hempty : ShelteredDir (.node w []) := ⟨⟨w, rfl⟩, fun _ _ h => by cases h⟩
    exact shelteredDir_insertChild hempty (sheltered_of_readOnly hbundle.all) hbundle.notIpa

lemma finish_cases {root : FsNode} {cowDir : Option HostPath} {name : Text} {host : Host}
    {s : Storage} (h : finish root cowDir name host = .ok s) :
    s.fs = ⟨root, homeRelative name, cowDir⟩ ∧ s.host = host := by
  obtain ⟨-, -, h⟩ := bind_eq_ok.mp h
  obtain rfl : (⟨⟨root, homeRelative name, cowDir⟩, host⟩ : Storage) = s := by simpa using h
  exact ⟨rfl, rfl⟩

lemma sheltered_new {host : Host} {sandbox : HostPath} {appBundle : BundleData} {name : Text}
    {readOnlyMode : Bool} {s : Storage}
    (h : Fs.new host sandbox appBundle name readOnlyMode = .ok s) : Sheltered s.fs.root := by
  rw [Fs.new] at h
  split at h
  · obtain ⟨bundle, hbundle, h⟩ := bind_eq_ok.mp h
    obtain ⟨root, hroot, h⟩ := bind_eq_ok.mp h
    rw [(finish_cases h).1]
    have hfrozen := frozenDir_intoFsNode hbundle
    apply ShelteredDir.sheltered
    refine shelteredDir_buildRoot shelteredDir_dir ?_ shelteredDir_dir hroot
    have hempty : ShelteredDir (.node none []) := shelteredDir_dir
    exact shelteredDir_insertChild hempty (sheltered_of_readOnly hfrozen.all) hfrozen.notIpa
  · obtain ⟨host₁, -, h⟩ := bind_eq_ok.mp h
    obtain ⟨bundle, hbundle, h⟩ := bind_eq_ok.mp h
    obtain ⟨children, hchildren, h⟩ := bind_eq_ok.mp h
    obtain ⟨library, hlibrary, h⟩ := bind_eq_ok.mp h
    obtain ⟨host₂, -, h⟩ := bind_eq_ok.mp h
    obtain ⟨rootNode, hrootNode, h⟩ := bind_eq_ok.mp h
    obtain ⟨host₃, -, h⟩ := bind_eq_ok.mp h
    obtain ⟨root, hroot, h⟩ := bind_eq_ok.mp h
    rw [(finish_cases h).1]
    exact (shelteredDir_buildRoot (shelteredDir_fromHostDir hrootNode)
      (shelteredDir_appChildren (frozenDir_intoFsNode hbundle) hchildren)
      (shelteredDir_fromHostDir hlibrary) hroot).sheltered

end Sheltered

end TouchHle.Filesystem
