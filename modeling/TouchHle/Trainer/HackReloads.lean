import TouchHle.Trainer.HackLines

namespace TouchHle.Trainer.Hacks

open Lib List Patch

variable {p q : Patch} {ps : List Patch} {read : VType.ReadF32} {app : Option (List Char)} {a : ℕ}
  {files : HackFiles} {m : Mem}

def newPatches : List (ℕ × VType × ℕ) → List Patch → List Patch
  | _, [] => []
  | applied, p :: ps =>
    if p.key ∈ applied then newPatches applied ps else p :: newPatches (applied ++ [p.key]) ps

def writeAll (m : Mem) (ps : List Patch) : Mem := ps.foldl (fun m p => (p.vtype.writeAt m p.addr p.bits).2) m

lemma foldl_applyPatch : ∀ (ps : List Patch) (s : Mem × TrainerState),
    ps.foldl applyPatch s = (writeAll s.1 (newPatches s.2.applied ps),
      { s.2 with
        applied := s.2.applied ++ (newPatches s.2.applied ps).map key
        frozen := s.2.frozen ++ (newPatches s.2.applied ps).filter freeze }) := by
  intro ps
  induction ps with
  | nil =>
    intro s
    simp [newPatches, writeAll]
  | cons p ps ih =>
    intro s
    rw [foldl_cons, newPatches, applyPatch]
    by_cases happlied : p.key ∈ s.2.applied
    · rw [if_pos happlied, if_pos happlied, ih]
    · rw [if_neg happlied, if_neg happlied, ih]
      obtain ⟨addr, t, bits, freeze⟩ := p
      cases freeze <;> simp [writeAll]

lemma newPatches_eq_filter {known : List (ℕ × VType × ℕ)} :
    ∀ (ps : List Patch) {applied all : List (ℕ × VType × ℕ)},
    (∀ k, k ∈ all ↔ k ∈ known ∨ k ∈ applied) →
    newPatches all ps = (newPatches applied ps).filter fun p => p.key ∉ known := by
  intro ps
  induction ps with
  | nil => exact fun _ => rfl
  | cons p ps ih =>
    intro applied all h
    rw [newPatches, newPatches]
    by_cases happlied : p.key ∈ applied
    · rw [if_pos ((h _).mpr (.inr happlied)), if_pos happlied, ih h]
    · rw [if_neg happlied]
      by_cases hknown : p.key ∈ known
      · rw [if_pos ((h _).mpr (.inl hknown)), filter_cons_of_neg (by simpa using hknown)]
        apply ih
        intro k
        rw [h, mem_append, mem_singleton]
        constructor
        · exact fun h => h.imp_right .inl
        · rintro (h | h | rfl)
          · exact .inl h
          · exact .inr h
          · exact .inl hknown
      · have hall : p.key ∉ all := fun hmem => ((h _).mp hmem).elim hknown happlied
        rw [if_neg hall, filter_cons_of_pos (by simpa using hknown)]
        congr 1
        apply ih
        intro k
        rw [mem_append, h, mem_append, or_assoc]

lemma key_notMem_newPatches : ∀ (ps : List Patch) {applied : List (ℕ × VType × ℕ)},
    (∀ p ∈ newPatches applied ps, p.key ∉ applied) ∧ ((newPatches applied ps).map key).Nodup := by
  intro ps
  induction ps with
  | nil =>
    intro applied
    refine ⟨?_, nodup_nil⟩
    intro p hp
    cases hp
  | cons p ps ih =>
    intro applied
    rw [newPatches]
    by_cases happlied : p.key ∈ applied
    · rw [if_pos happlied]
      exact ih
    · rw [if_neg happlied]
      obtain ⟨hnot, hnodup⟩ := @ih (applied ++ [p.key])
      refine ⟨?_, ?_⟩
      · intro q hq
        obtain rfl | hq := mem_cons.mp hq
        · exact happlied
        · exact fun hmem => hnot q hq (mem_append_left _ hmem)
      · rw [map_cons, nodup_cons]
        refine ⟨?_, hnodup⟩
        intro hmem
        obtain ⟨q, hq, hkey⟩ := mem_map.mp hmem
        exact hnot q hq (mem_append_right _ (mem_singleton.mpr hkey))

def keySets (a : ℕ) (k : ℕ × VType × ℕ) : Bool := k.1 ≤ a && a < k.1 + k.2.1.size

def Patch.sets (a : ℕ) (p : Patch) : Bool := keySets a p.key

def HackFiles.firsts (read : VType.ReadF32) (app : Option (List Char)) (files : HackFiles) : List Patch :=
  newPatches [] (files.patches read app)

def HackFiles.KeptBy (read : VType.ReadF32) (app : Option (List Char)) (files edited : HackFiles) : Prop :=
  ∀ a, (files.firsts read app).filter (Patch.sets a) <+: (edited.firsts read app).filter (Patch.sets a)

lemma sets_addr (p : Patch) : p.sets p.addr = true := by
  simp [sets, keySets, key, VType.size_pos]

def SameAs (read : VType.ReadF32) (app : Option (List Char)) (files : HackFiles) (log : List Patch) : Prop :=
  ∀ a, log.filter (Patch.sets a) = (files.firsts read app).filter (Patch.sets a)

lemma SameAs.reload {log : List Patch} {edited : HackFiles} (h : SameAs read app files log)
    (hkept : files.KeptBy read app edited) :
    SameAs read app edited (log ++ newPatches (log.map key) (edited.patches read app)) := by
  intro a
  obtain ⟨rest, hrest⟩ := hkept a
  have hnew : newPatches (log.map key) (edited.patches read app) =
      (edited.firsts read app).filter fun p => p.key ∉ log.map key :=
    newPatches_eq_filter _ fun k => by simp
  have hnodup : (((edited.firsts read app).filter (sets a)).map key).Nodup :=
    (key_notMem_newPatches _).2.sublist (filter_sublist.map _)
  rw [← hrest, map_append] at hnodup
  have hold : (((files.firsts read app).filter (sets a)).filter fun p => p.key ∉ log.map key) =
      [] := by
    rw [← h a, filter_eq_nil_iff]
    intro p hp
    have hkey : p.key ∈ log.map key := mem_map_of_mem (mem_of_mem_filter hp)
    simpa using hkey
  have hadded : (rest.filter fun p => p.key ∉ log.map key) = rest := by
    rw [filter_eq_self]
    intro p hp
    refine decide_eq_true fun hmem => ?_
    obtain ⟨q, hq, hkey⟩ := mem_map.mp hmem
    -- What tells patches apart also tells which bytes they set, so the other one is among the kept.
    have hsets : p.sets a = true :=
      (mem_filter.mp (hrest ▸ mem_append_right _ hp : p ∈ (edited.firsts read app).filter _)).2
    have hq' : q ∈ (files.firsts read app).filter (sets a) := by
      rw [← h a, mem_filter]
      refine ⟨hq, ?_⟩
      rw [sets, hkey]
      exact hsets
    exact disjoint_of_nodup_append hnodup (mem_map_of_mem hq') (hkey ▸ mem_map_of_mem hp)
  rw [filter_append, h a, hnew, filter_comm, ← hrest, filter_append, hold, hadded,
    nil_append]

lemma SameAs.mem_iff {log : List Patch} (h : SameAs read app files log) (p : Patch) :
    p ∈ log ↔ p ∈ files.firsts read app := by
  have hp := h p.addr
  have hlog : p ∈ log.filter (sets p.addr) ↔ p ∈ log := by
    rw [mem_filter, and_iff_left (sets_addr p)]
  rw [← hlog, hp, mem_filter, and_iff_left (sets_addr p)]

inductive HackEvent
  | reload (files : HackFiles)
  | other (mem : Mem)

def HackEvent.reloaded : HackEvent → Option HackFiles
  | .reload files => some files
  | .other _ => none

def hackStep (read : VType.ReadF32) (s : Mem × TrainerState) : HackEvent → Mem × TrainerState
  | .reload files => loadAndApplyHacks read s files
  | .other mem => (mem, s.2)

def startApp (read : VType.ReadF32) (m : Mem) (app : Option (List Char)) (files : HackFiles) :
    Mem × TrainerState :=
  loadAndApplyHacks read (m, TrainerState.initial app) files

def lastApplied (s : TrainerState) (a : ℕ) : Option UInt8 :=
  ((s.applied.filter (keySets a)).getLast?).map fun k => (leBytes k.2.1.size k.2.2).getD (a - k.1) 0

structure Agrees (s fresh : TrainerState) : Prop where
  values : ∀ a, lastApplied s a = lastApplied fresh a
  frozen : ∀ p, p ∈ s.frozen ↔ p ∈ fresh.frozen

structure Logged (read : VType.ReadF32) (app : Option (List Char)) (files : HackFiles) (s : TrainerState)
    (log : List Patch) : Prop where
  appId : s.appId = app
  applied : s.applied = log.map Patch.key
  frozen : s.frozen = log.filter Patch.freeze
  same : SameAs read app files log

lemma Logged.start (read : VType.ReadF32) (m : Mem) (app : Option (List Char)) (files : HackFiles) :
    Logged read app files (startApp read m app files).2 (files.firsts read app) := by
  rw [startApp, loadAndApplyHacks, foldl_applyPatch]
  exact ⟨rfl, nil_append _, nil_append _, fun _ => rfl⟩

lemma Logged.reload {s : Mem × TrainerState} {log : List Patch} {edited : HackFiles}
    (h : Logged read app files s.2 log) (hkept : files.KeptBy read app edited) :
    Logged read app edited (loadAndApplyHacks read s edited).2
      (log ++ newPatches (log.map key) (edited.patches read app)) := by
  rw [loadAndApplyHacks, foldl_applyPatch, h.appId, h.applied]
  refine ⟨h.appId, ?_, ?_, h.same.reload hkept⟩
  · rw [map_append]
  · rw [filter_append, ← h.frozen]

lemma Logged.agrees {s : TrainerState} {log : List Patch} (h : Logged read app files s log) (m : Mem) :
    Agrees s (startApp read m app files).2 := by
  have hfresh := Logged.start read m app files
  refine ⟨fun a => ?_, fun p => ?_⟩
  · have hmap : ∀ l : List Patch,
        (l.map key).filter (keySets a) = (l.filter (sets a)).map key :=
      fun l => filter_map
    rw [lastApplied, lastApplied, h.applied, hfresh.applied, hmap, hmap, h.same a]
  · rw [h.frozen, hfresh.frozen, mem_filter, mem_filter, h.same.mem_iff]

lemma run_agrees : ∀ (events : List HackEvent) {files : HackFiles} {s : Mem × TrainerState}
    {log : List Patch},
    Logged read app files s.2 log →
    List.IsChain (fun f g => HackFiles.KeptBy read app f g) (files :: events.filterMap HackEvent.reloaded) →
    ∀ m, Agrees (events.foldl (hackStep read) s).2
      (startApp read m app ((events.filterMap HackEvent.reloaded).getLastD files)).2 := by
  intro events
  induction events with
  | nil =>
    intro files s log h _ m
    exact h.agrees m
  | cons e events ih =>
    intro files s log h hchain m
    cases e with
    | reload edited =>
      obtain ⟨hkept, hrest⟩ := isChain_cons_cons.mp hchain
      have hrun := ih (h.reload hkept) hrest m
      have hcons : (HackEvent.reload edited :: events).filterMap HackEvent.reloaded =
          edited :: events.filterMap HackEvent.reloaded := rfl
      rwa [hcons, getLastD_cons]
    | other mem =>
      exact ih (s := (mem, s.2)) h hchain m

lemma writeAt_bytes (p : Patch) {m m' : Mem} (hnull : m.nullSegmentSize = m'.nullSegmentSize)
    (hbyte : m.bytes a = m'.bytes a) :
    ((p.vtype.writeAt m p.addr p.bits).2).nullSegmentSize = m'.nullSegmentSize ∧
      (((p.vtype.writeAt m p.addr p.bits).2).bytes a = ((p.vtype.writeAt m' p.addr p.bits).2).bytes a) ∧
        ((p.vtype.writeAt m' p.addr p.bits).2).nullSegmentSize = m'.nullSegmentSize := by
  rw [VType.writeAt, VType.writeAt, hnull]
  split_ifs
  · exact ⟨hnull, hbyte, rfl⟩
  · refine ⟨rfl, ?_, rfl⟩
    change m.bytes.store _ _ a = m'.bytes.store _ _ a
    simp only [Bytes.store, hbyte]
  · exact ⟨hnull, hbyte, rfl⟩

lemma writeAt_unset (h : p.sets a = false) (m : Mem) :
    ((p.vtype.writeAt m p.addr p.bits).2).nullSegmentSize = m.nullSegmentSize ∧
      ((p.vtype.writeAt m p.addr p.bits).2).bytes a = m.bytes a := by
  cases hw : p.vtype.writeAt m p.addr p.bits with
  | mk wrote m' =>
    cases wrote with
    | false =>
      rw [VType.writeAt] at hw
      split_ifs at hw <;> cases hw <;> exact ⟨rfl, rfl⟩
    | true =>
      obtain ⟨hnull, -, hframe⟩ := VType.writeAt_frame hw
      refine ⟨hnull, hframe a ?_⟩
      have hnot : ¬ (p.addr ≤ a ∧ a < p.addr + p.vtype.size) := by
        rintro ⟨hle, hlt⟩
        have hsets : p.sets a = true := Bool.and_eq_true_iff.mpr ⟨decide_eq_true hle, decide_eq_true hlt⟩
        rw [h] at hsets
        cases hsets
      omega

lemma writeAll_filter : ∀ (ps : List Patch) {m m' : Mem}, m.nullSegmentSize = m'.nullSegmentSize →
    m.bytes a = m'.bytes a → (writeAll m ps).bytes a = (writeAll m' (ps.filter (sets a))).bytes a := by
  intro ps
  induction ps with
  | nil => exact fun _ h => h
  | cons p ps ih =>
    intro m m' hnull hbyte
    rw [writeAll, foldl_cons]
    cases hsets : p.sets a with
    | false =>
      obtain ⟨hnull', hbyte'⟩ := writeAt_unset hsets m
      rw [filter_cons_of_neg (by simp [hsets])]
      exact ih (hnull'.trans hnull) (hbyte'.trans hbyte)
    | true =>
      obtain ⟨hnull', hbyte', hnull''⟩ := writeAt_bytes p hnull hbyte
      rw [filter_cons_of_pos hsets, writeAll, foldl_cons]
      exact ih (hnull'.trans hnull''.symm) hbyte'

lemma reloads_memory : ∀ (reloads : List HackFiles) {files : HackFiles} {s : Mem × TrainerState}
    {log : List Patch},
    Logged read app files s.2 log → s.1 = writeAll m log →
    List.IsChain (fun f g => HackFiles.KeptBy read app f g) (files :: reloads) →
    ∀ a, (reloads.foldl (loadAndApplyHacks read) s).1.bytes a =
      (startApp read m app (reloads.getLastD files)).1.bytes a := by
  intro reloads
  induction reloads with
  | nil =>
    intro files s log h hmem _ a
    have hfresh : (startApp read m app files).1 = writeAll m (files.firsts read app) := by
      rw [startApp, loadAndApplyHacks, foldl_applyPatch]
      rfl
    rw [getLastD_nil, hfresh, foldl_nil, hmem, writeAll_filter log rfl rfl, h.same a,
      ← writeAll_filter _ rfl rfl]
  | cons edited reloads ih =>
    intro files s log h hmem hchain a
    obtain ⟨hkept, hrest⟩ := isChain_cons_cons.mp hchain
    rw [getLastD_cons, foldl_cons]
    refine ih (h.reload hkept) ?_ hrest a
    rw [loadAndApplyHacks, foldl_applyPatch, h.appId, h.applied, hmem]
    simp [writeAll]

/-- Saved in the file of its app, a hack is read as it was: applying what is read sets the bytes that applying
the hack sets, and no others. -/
structure ReadsBack (read : VType.ReadF32) (app : List Char) (p : Patch) : Prop where
  parsed : parseHackText read (hackLine p) (some app) (some app) = [p]
  bytes : ∀ m, writeAll m (parseHackText read (hackLine p) (some app) (some app)) =
    (p.vtype.writeAt m p.addr p.bits).2
  neighbours : ∀ m a, p.sets a = false →
    (writeAll m (parseHackText read (hackLine p) (some app) (some app))).bytes a = m.bytes a

lemma readsBack_iff (haddr : p.addr < 2 ^ 32) (app : List Char) :
    ReadsBack read app p ↔ Reloads read p.vtype p.bits := by
  rw [← parseHackText_saved read haddr app]
  constructor
  · exact ReadsBack.parsed
  · intro h
    refine ⟨h, fun m => ?_, fun m a hsets => ?_⟩
    · rw [h]
      rfl
    · rw [h]
      exact (writeAt_unset hsets m).2

lemma parsed_for_app {text : List Char} {fileApp currentApp : Option (List Char)}
    (h : p ∈ parseHackText read text fileApp currentApp) :
    ∃ before raw after, text.splitOn '\n' = before ++ raw :: after ∧
      parseLine read fileApp currentApp (sectionAfter before) (freezes raw) (strippedLine raw) = some p ∧
      ∀ app, patchApp fileApp (sectionAfter before) (strippedLine raw) = some app → some app = currentApp := by
  obtain ⟨before, raw, after, hlines, hline⟩ := mem_parseLines h
  rw [Option.or_none] at hline
  exact ⟨before, raw, after, hlines, hline, parseLine_app hline⟩

lemma patches_congr {files files' : HackFiles} (hglobal : files.global = files'.global)
    (happ : ∀ name, app = some name → files.ofApp name = files'.ofApp name) :
    files.patches read app = files'.patches read app := by
  cases app with
  | none => simp [HackFiles.patches, hglobal]
  | some name => simp [HackFiles.patches, hglobal, happ name rfl]

/-- A saved hack is read as it was exactly when it is an integer of 32 bits with its sign, or a finite value
that its four decimals keep. Lines for other apps never apply. Files that are edited and read again stand for
a start with the edited files as long as every edit keeps the patches that set a byte as the first of those. -/
theorem saved_hacks_reload (read : VType.ReadF32) :
    (∀ app p, p.addr < 2 ^ 32 → (ReadsBack read app p ↔ Reloads read p.vtype p.bits)) ∧
    (∀ text fileApp currentApp p, p ∈ parseHackText read text fileApp currentApp →
      ∃ before raw after, text.splitOn '\n' = before ++ raw :: after ∧
        parseLine read fileApp currentApp (sectionAfter before) (freezes raw) (strippedLine raw) = some p ∧
        ∀ app, patchApp fileApp (sectionAfter before) (strippedLine raw) = some app → some app = currentApp) ∧
    (∀ (files files' : HackFiles) currentApp, files.global = files'.global →
      (∀ name, currentApp = some name → files.ofApp name = files'.ofApp name) →
      files.patches read currentApp = files'.patches read currentApp) ∧
    (∀ m app files (events : List HackEvent),
      List.IsChain (fun f g => HackFiles.KeptBy read app f g) (files :: events.filterMap HackEvent.reloaded) →
      ∀ m', Agrees (events.foldl (hackStep read) (startApp read m app files)).2
        (startApp read m' app ((events.filterMap HackEvent.reloaded).getLastD files)).2) ∧
    ∀ m app files (reloads : List HackFiles),
      List.IsChain (fun f g => HackFiles.KeptBy read app f g) (files :: reloads) →
      ∀ a, (reloads.foldl (loadAndApplyHacks read) (startApp read m app files)).1.bytes a =
        (startApp read m app (reloads.getLastD files)).1.bytes a := by
  refine ⟨fun app p haddr => readsBack_iff haddr app, fun _ _ _ _ => parsed_for_app,
    fun _ _ _ => patches_congr, ?_, ?_⟩
  · intro m app files events hchain
    exact run_agrees events (Logged.start read m app files) hchain
  · intro m app files reloads hchain
    refine reloads_memory reloads (Logged.start read m app files) ?_ hchain
    rw [startApp, loadAndApplyHacks, foldl_applyPatch]
    rfl

def readNumbers : VType.ReadF32 := fun text =>
  if text = ['5'] then some 0x40A00000 else if text = ['1', '0', '0'] then some 0x42C80000 else none

def hundred : Patch := ⟨0x1000, .i32, 100, true⟩

def noFiles : HackFiles := ⟨none, fun _ => none⟩

def frozenHundred : HackFiles := ⟨some (hackLine hundred), fun _ => none⟩

theorem hundred_reloads :
    ReadsBack readNumbers ['a', '.', 'b'] hundred ∧
      Agrees ([HackEvent.reload frozenHundred].foldl (hackStep readNumbers)
        (startApp readNumbers ⟨fun _ => 0, 0x1000, []⟩ none noFiles)).2
        (startApp readNumbers ⟨fun _ => 0, 0x1000, []⟩ none frozenHundred).2 := by
  have hsaved : Reloads readNumbers hundred.vtype hundred.bits := .inl ⟨rfl, by decide⟩
  have hkept : HackFiles.KeptBy readNumbers none noFiles frozenHundred := fun _ => List.nil_prefix
  refine ⟨((saved_hacks_reload readNumbers).1 _ _ (by decide)).mpr hsaved, ?_⟩
  exact (saved_hacks_reload readNumbers).2.2.2.1 _ none noFiles [.reload frozenHundred]
    (List.isChain_cons_cons.mpr ⟨hkept, List.isChain_singleton _⟩) _

def fileOf (bits : ℕ) : HackFiles := ⟨some (hackLine ⟨0x1000, .i32, bits, false⟩), fun _ => none⟩

theorem bytes_and_frozen_are_not_kept :
    ¬ ReadsBack readNumbers ['a', '.', 'b'] ⟨0x1000, .u8, 5, false⟩ ∧
      (writeAll ⟨fun _ => 0xFF, 0x1000, []⟩ (parseHackText readNumbers (hackLine ⟨0x1000, .u8, 5, false⟩)
        (some ['a', '.', 'b']) (some ['a', '.', 'b']))).bytes 0x1001 = 0 ∧
      ¬ Agrees ([HackEvent.reload noFiles].foldl (hackStep readNumbers)
        (startApp readNumbers ⟨fun _ => 0, 0x1000, []⟩ none frozenHundred)).2
        (startApp readNumbers ⟨fun _ => 0, 0x1000, []⟩ none noFiles).2 ∧
      ¬ Agrees ([HackEvent.reload (fileOf 5), HackEvent.reload (fileOf 100)].foldl (hackStep readNumbers)
        (startApp readNumbers ⟨fun _ => 0, 0x1000, []⟩ none (fileOf 100))).2
        (startApp readNumbers ⟨fun _ => 0, 0x1000, []⟩ none (fileOf 100)).2 := by
  refine ⟨?_, ?_, ?_, ?_⟩
  · rw [readsBack_iff (by decide)]
    rintro (⟨h, -⟩ | ⟨h, -⟩) <;> cases h
  · have hvalue : parseHackValue readNumbers (VType.u8.format 5) = (.i32, 5) := by decide
    rw [parseHackText_hackLine _ (by decide), hvalue]
    decide
  · intro h
    have hfrozen := (h.frozen hundred).mp
    have hnone : (startApp readNumbers ⟨fun _ => 0, 0x1000, []⟩ none noFiles).2.frozen = [] := rfl
    rw [hnone] at hfrozen
    exact nomatch hfrozen (by decide)
  · intro h
    have hvalue := h.values 0x1000
    revert hvalue
    decide

end TouchHle.Trainer.Hacks
