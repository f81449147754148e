import TouchHle.Crypto.Md5
import TouchHle.Lib.Runs

namespace TouchHle.Crypto

open Lib List Option Md5Ctx Function

inductive ShaKind
  | sha1 | sha224 | sha256 | sha384 | sha512
  deriving DecidableEq

def ShaKind.digestLen : ShaKind → ℕ
  | sha1 => 20
  | sha224 => 28
  | sha256 => 32
  | sha384 => 48
  | sha512 => 64

structure Hasher (σ : Type) where
  new : ShaKind → σ
  update : ShaKind → σ → List UInt8 → σ
  finalize : ShaKind → σ → List UInt8
  update_nil : ∀ kind state, update kind state [] = state
  update_append : ∀ kind state p q, update kind state (p ++ q) = update kind (update kind state p) q
  length_finalize : ∀ kind state, (finalize kind state).length = kind.digestLen

variable {σ : Type}

def Hasher.digest (H : Hasher σ) (kind : ShaKind) (m : List UInt8) : List UInt8 :=
  H.finalize kind (H.update kind (H.new kind) m)

structure ShaState (σ : Type) where
  kind : ShaKind
  hasher : σ

def shaInitSentinel : UInt32 := 0xCAFEC0DE

structure Digests (σ : Type) where
  mem : Bytes
  table : ℕ → Option (ShaState σ)

namespace Digests

variable (H : Hasher σ) (s : Digests σ)

def context (c : ℕ) : Md5Ctx := .ofBytes (s.mem.load c 92)

def sentinel (c : ℕ) : UInt32 := UInt32.ofNat (fromLeBytes (s.mem.load c 4))

def store (start : ℕ) (bytes : List UInt8) : Digests σ := { s with mem := s.mem.store start bytes }

def md5Init (c : ℕ) : Digests σ × Int :=
  if c = 0 then (s, 0) else (s.store c Md5Ctx.init.toBytes, 1)

def md5Update (c data len : ℕ) : Checked (Digests σ × Int) :=
  if c = 0 ∨ data = 0 ∨ len = 0 then .ok (s, 1)
  else do
    let ctx ← (s.context c).update (s.mem.load data len)
    return (s.store c ctx.toBytes, 1)

def md5Final (md c : ℕ) : Checked (Digests σ × Int) :=
  if md = 0 ∨ c = 0 then .ok (s, 0)
  else do
    let hash ← (s.context c).final
    return ((s.store md hash).store c (List.replicate 92 0), 1)

def shaInit (kind : ShaKind) (c : ℕ) : Digests σ × Int :=
  if c = 0 then (s, 0)
  else
    ({ mem := s.mem.store c (leBytes 4 shaInitSentinel.toNat)
       table := Function.update s.table c (some ⟨kind, H.new kind⟩) }, 1)

def shaUpdateInner (c data len : ℕ) : Digests σ × Int :=
  if c = 0 then (s, 0)
  else if s.sentinel c ≠ shaInitSentinel then (s, 0)
  else if len = 0 ∨ data = 0 then (s, 1)
  else
    (s.table c).elim (s, 0) fun state =>
      let hasher := H.update state.kind state.hasher (s.mem.load data len)
      ({ s with table := Function.update s.table c (some ⟨state.kind, hasher⟩) }, 1)

def shaFinalInner (md c digestLen : ℕ) : Checked (Digests σ × Int) :=
  if md = 0 ∨ c = 0 then .ok (s, 0)
  else if s.sentinel c ≠ shaInitSentinel then .ok (s, 0)
  else
    let cleared : Digests σ :=
      ⟨s.mem.store c (leBytes 4 0), Function.update s.table c none⟩
    (s.table c).elim (.ok (cleared, 0)) fun state =>
      let out := H.finalize state.kind state.hasher
      if out.length = digestLen then .ok (cleared.store md out, 1) else .error .assertion

end Digests

inductive DigestCommand
  | md5Init (c : ℕ)
  | md5Update (c data len : ℕ)
  | md5Final (md c : ℕ)
  | shaInit (kind : ShaKind) (c : ℕ)
  | shaUpdate (c data len : ℕ)
  | shaFinal (kind : ShaKind) (md c : ℕ)
  | write (start : ℕ) (bytes : List UInt8)
  | copy (dest src len : ℕ)

def Digests.exec (H : Hasher σ) (s : Digests σ) : DigestCommand → Checked (Digests σ × Int)
  | .md5Init c => .ok (s.md5Init c)
  | .md5Update c data len => s.md5Update c data len
  | .md5Final md c => s.md5Final md c
  | .shaInit kind c => .ok (s.shaInit H kind c)
  | .shaUpdate c data len => .ok (s.shaUpdateInner H c data len)
  | .shaFinal kind md c => s.shaFinalInner H md c kind.digestLen
  | .write start bytes => .ok (s.store start bytes, 1)
  | .copy dest src len => .ok ({ s with mem := s.mem.copyWithin src len dest }, 1)

inductive Message
  | md5 (m : List UInt8)
  | sha (kind : ShaKind) (m : List UInt8) (copied : Bool)

namespace Message

def size : Message → ℕ
  | md5 _ => 92
  | sha .. => 4

def isMd5 : Message → Bool
  | md5 _ => true
  | sha .. => false

def isCopy : Message → Bool
  | md5 _ => false
  | sha _ _ copied => copied

def moved (elsewhere : Bool) : Message → Message
  | md5 m => md5 m
  | sha kind m copied => sha kind m (elsewhere || copied)

def append (input : List UInt8) : Message → Message
  | md5 m => md5 (m ++ input)
  | sha kind m copied => sha kind (m ++ input) copied

end Message

variable {σ : Type}

abbrev Messages := ℕ → Option Message

def Messages.kept (messages : Messages) (before after : Digests σ) : Messages := fun c =>
  (messages c).filter fun msg => after.mem.load c msg.size = before.mem.load c msg.size

def Messages.after (messages : Messages) (before after : Digests σ) : DigestCommand → Messages
  | .md5Init c =>
    if c = 0 then messages else Function.update (messages.kept before after) c (some (.md5 []))
  | .md5Update c data len =>
    if c = 0 ∨ data = 0 ∨ len = 0 then messages
    else if (messages c).any Message.isMd5 then
      Function.update (messages.kept before after) c
        ((messages c).map (.append (before.mem.load data len)))
    else messages.kept before after
  | .md5Final md c =>
    if md = 0 ∨ c = 0 then messages else Function.update (messages.kept before after) c none
  | .shaInit kind c =>
    if c = 0 then messages
    else Function.update (messages.kept before after) c (some (.sha kind [] false))
  | .shaUpdate c data len =>
    if c = 0 ∨ data = 0 ∨ len = 0 ∨ (messages c).any Message.isMd5 then messages
    else
      Function.update messages c ((messages c).map (.append (before.mem.load data len)))
  | .shaFinal _ md c =>
    if md = 0 ∨ c = 0 then messages
    else if (messages c).any Message.isMd5 then messages.kept before after
    else Function.update (messages.kept before after) c none
  | .write _ _ => messages.kept before after
  | .copy dest src len => fun c =>
    if dest ≤ c then
      ((messages (src + (c - dest))).filter fun msg => c + msg.size ≤ dest + len).elim
        (messages.kept before after c) fun msg => some (msg.moved (src ≠ dest))
    else messages.kept before after c

structure Traced (σ : Type) where
  digests : Digests σ
  messages : Messages
  reply : Int

namespace Traced

def start (mem : Bytes) : Traced σ := ⟨⟨mem, fun _ => none⟩, fun _ => none, 0⟩

def step (H : Hasher σ) (t : Traced σ) (command : DigestCommand) : Checked (Traced σ) := do
  let r ← t.digests.exec H command
  return ⟨r.1, t.messages.after t.digests r.1 command, r.2⟩

def Right (H : Hasher σ) (t : Traced σ) (command : DigestCommand) (t' : Traced σ) : Prop :=
  match command with
  | .md5Final md c => md ≠ 0 → c ≠ 0 → ∀ m, t.messages c = some (.md5 m) → m.length < 2 ^ 61 →
    t'.reply = 1 ∧ md5Hash m = .ok (t'.digests.mem.load md 16)
  | .shaFinal kind md c => md ≠ 0 → c ≠ 0 → ∀ m copied, t.messages c = some (.sha kind m copied) →
    t'.reply = 1 ∧ t'.digests.mem.load md kind.digestLen = H.digest kind m
  | _ => True

/-- A context for MD5 that was not set up has a buffer that is not overfull; a digest is not written
over the context for MD5 it comes from; a copy of a context for SHA is not used, and a context for
SHA is finished as it was set up. -/
def Served (t : Traced σ) : DigestCommand → Prop
  | .md5Update c data len => c ≠ 0 → data ≠ 0 → len ≠ 0 →
    (t.messages c).any Message.isMd5 = false → (t.digests.context c).num.toNat ≤ 64
  | .md5Final md c => md ≠ 0 → c ≠ 0 →
    if (t.messages c).any Message.isMd5 then md + 16 ≤ c ∨ c + 92 ≤ md
    else (t.digests.context c).num.toNat < 68
  | .shaUpdate c data len => c ≠ 0 → data ≠ 0 → len ≠ 0 → (t.messages c).any Message.isCopy = false
  | .shaFinal kind md c => md ≠ 0 → c ≠ 0 → (t.messages c).any Message.isCopy = false ∧
    (t.digests.sentinel c = shaInitSentinel → ∀ state ∈ t.digests.table c, state.kind = kind)
  | _ => True

end Traced

instance decidableServed (t : Traced σ) : (command : DigestCommand) → Decidable (t.Served command)
  | .md5Update _ _ _ => inferInstanceAs (Decidable (_ → _ → _ → _ → _))
  | .md5Final _ _ => inferInstanceAs (Decidable (_ → _ → _))
  | .shaUpdate _ _ _ => inferInstanceAs (Decidable (_ → _ → _ → _))
  | .shaFinal _ _ _ => inferInstanceAs (Decidable (_ → _ → _))
  | .md5Init _ => inferInstanceAs (Decidable True)
  | .shaInit _ _ => inferInstanceAs (Decidable True)
  | .write _ _ => inferInstanceAs (Decidable True)
  | .copy _ _ _ => inferInstanceAs (Decidable True)

def Incremental (H : Hasher σ) (mem : Bytes) (commands : List DigestCommand) : Prop :=
  (∃ t, run (Traced.step H) (.start mem) commands = .ok t) ∧
    Along (Traced.step H) (fun t command => ∀ t', t.step H command = .ok t' → t.Right H command t')
      (.start mem) commands

def Message.Valid (H : Hasher σ) (s : Digests σ) (c : ℕ) : Message → Prop
  | .md5 m => (s.context c).Holds m
  | .sha kind m copied => s.sentinel c = shaInitSentinel ∧
    (copied = false → s.table c = some ⟨kind, H.update kind (H.new kind) m⟩)

variable {H : Hasher σ} {s s' : Digests σ} {messages : Messages} {msg : Message} {o : Option Message}
  {c : ℕ}

lemma Message.Valid.congr (h : msg.Valid H s c)
    (hbytes : s'.mem.load c msg.size = s.mem.load c msg.size)
    (htable : msg.isMd5 = true ∨ s'.table c = s.table c) : msg.Valid H s' c := by
  cases msg with
  | md5 m =>
    have hcontext : s'.context c = s.context c := congrArg ofBytes hbytes
    unfold Valid at h ⊢
    rwa [hcontext]
  | sha kind m copied =>
    have hsentinel : s'.sentinel c = s.sentinel c :=
      congrArg (fun bytes => UInt32.ofNat (fromLeBytes bytes)) hbytes
    have hsame : s'.table c = s.table c := htable.resolve_left Bool.false_ne_true
    unfold Valid at h ⊢
    rwa [hsentinel, hsame]

def Tracks (H : Hasher σ) (s : Digests σ) (messages : Messages) : Prop :=
  ∀ c msg, messages c = some msg → msg.Valid H s c

lemma kept_eq_some : messages.kept s s' c = some msg ↔
    messages c = some msg ∧ s'.mem.load c msg.size = s.mem.load c msg.size := by
  simp [Messages.kept]

lemma Tracks.kept (h : Tracks H s messages)
    (htable : ∀ a msg, messages a = some msg → msg.isMd5 = true ∨ s'.table a = s.table a) :
    Tracks H s' (messages.kept s s') := by
  intro a msg hmsg
  obtain ⟨hmsg, hbytes⟩ := kept_eq_some.mp hmsg
  exact (h a msg hmsg).congr hbytes (htable a msg hmsg)

lemma Tracks.kept_update (h : Tracks H s messages) (htable : ∀ a, a ≠ c → s'.table a = s.table a)
    (ho : ∀ msg, o = some msg → msg.Valid H s' c) :
    Tracks H s' (update (messages.kept s s') c o) := by
  intro a msg hmsg
  by_cases ha : a = c
  · subst ha
    rw [update_self] at hmsg
    exact ho msg hmsg
  · rw [update_of_ne ha] at hmsg
    obtain ⟨hmsg, hbytes⟩ := kept_eq_some.mp hmsg
    exact (h a msg hmsg).congr hbytes (.inr (htable a ha))

lemma kept_of_mem (hmem : s'.mem = s.mem) : messages.kept s s' = messages := by
  funext a
  cases hmsg : messages a with
  | none => rw [Messages.kept, hmsg, filter_none]
  | some msg => exact kept_eq_some.mpr ⟨hmsg, by rw [hmem]⟩

lemma context_store {ctx : Md5Ctx} (h : ctx.buffer.length = 64) :
    (s.store c ctx.toBytes).context c = ctx := by
  have hload : (s.mem.store c ctx.toBytes).load c ctx.toBytes.length = ctx.toBytes := Bytes.load_store
  rw [length_toBytes h] at hload
  exact (congrArg ofBytes hload).trans (ofBytes_toBytes h)

lemma sentinel_store {mem : Bytes} {table : ℕ → Option (ShaState σ)} :
    Digests.sentinel ⟨mem.store c (leBytes 4 shaInitSentinel.toNat), table⟩ c = shaInitSentinel := by
  have hload : (mem.store c (leBytes 4 shaInitSentinel.toNat)).load c
      (leBytes 4 shaInitSentinel.toNat).length = leBytes 4 shaInitSentinel.toNat := Bytes.load_store
  have hfits : shaInitSentinel.toNat < 256 ^ 4 := shaInitSentinel.toNat_lt
  rw [length_leBytes] at hload
  unfold Digests.sentinel
  rw [hload, fromLeBytes_leBytes hfits, UInt32.ofNat_toNat]

namespace Traced

def Good (H : Hasher σ) (t : Traced σ) (command : DigestCommand) : Prop :=
  ∃ t', t.step H command = .ok t' ∧ Tracks H t'.digests t'.messages ∧ t.Right H command t'

variable {t : Traced σ} {command : DigestCommand}

lemma good_of_exec {s' : Digests σ} {reply : Int} (hexec : t.digests.exec H command = .ok (s', reply))
    (htracks : Tracks H s' (t.messages.after t.digests s' command))
    (hright : t.Right H command ⟨s', t.messages.after t.digests s' command, reply⟩) :
    t.Good H command :=
  ⟨_, by rw [step, hexec]; rfl, htracks, hright⟩

lemma good_md5Init (h : Tracks H t.digests t.messages) (c : ℕ) : t.Good H (.md5Init c) := by
  by_cases hc : c = 0
  · refine good_of_exec (congrArg Except.ok (if_pos hc)) ?_ trivial
    rwa [Messages.after, if_pos hc]
  · refine good_of_exec (congrArg Except.ok (if_neg hc)) ?_ trivial
    rw [Messages.after, if_neg hc]
    refine h.kept_update (fun _ _ => rfl) fun msg hmsg => ?_
    obtain rfl := some.inj hmsg
    unfold Message.Valid
    rw [context_store length_replicate]
    exact holds_init

lemma isMd5_iff : o.any Message.isMd5 = true ↔ ∃ m, o = some (.md5 m) := by
  rcases o with _ | (m | ⟨kind, m, copied⟩) <;> simp [Message.isMd5]

lemma good_md5Update (h : Tracks H t.digests t.messages) {c data len : ℕ}
    (hserved : t.Served (.md5Update c data len)) : t.Good H (.md5Update c data len) := by
  by_cases hearly : c = 0 ∨ data = 0 ∨ len = 0
  · refine good_of_exec (if_pos hearly) ?_ trivial
    rwa [Messages.after, if_pos hearly]
  push Not at hearly
  obtain ⟨hc, hdata, hlen⟩ := hearly
  have hearly : ¬ (c = 0 ∨ data = 0 ∨ len = 0) := by simp [hc, hdata, hlen]
  let input := t.digests.mem.load data len
  by_cases hmd5 : (t.messages c).any Message.isMd5 = true
  · obtain ⟨m, hm⟩ := isMd5_iff.mp hmd5
    obtain ⟨ctx, hctx, hholds⟩ := update_ok (h c _ hm) input
    have hexec : t.digests.exec H (.md5Update c data len) = .ok (t.digests.store c ctx.toBytes, 1) := by
      change t.digests.md5Update c data len = _
      rw [Digests.md5Update, if_neg hearly, hctx]
      rfl
    refine good_of_exec hexec ?_ trivial
    rw [Messages.after, if_neg hearly, if_pos hmd5, hm]
    refine h.kept_update (fun _ _ => rfl) fun msg hmsg => ?_
    obtain rfl := some.inj hmsg
    change ((t.digests.store c ctx.toBytes).context c).Holds (m ++ input)
    rwa [context_store hholds.absorbed.length_buffer]
  · have hnum := hserved hc hdata hlen (Bool.eq_false_of_not_eq_true hmd5)
    obtain ⟨ctx, hctx⟩ := update_total hnum input
    have hexec : t.digests.exec H (.md5Update c data len) = .ok (t.digests.store c ctx.toBytes, 1) := by
      change t.digests.md5Update c data len = _
      rw [Digests.md5Update, if_neg hearly, hctx]
      rfl
    refine good_of_exec hexec ?_ trivial
    rw [Messages.after, if_neg hearly, if_neg hmd5]
    exact h.kept fun _ _ _ => .inr rfl

lemma good_md5Final (h : Tracks H t.digests t.messages) {md c : ℕ}
    (hserved : t.Served (.md5Final md c)) : t.Good H (.md5Final md c) := by
  by_cases hearly : md = 0 ∨ c = 0
  · refine good_of_exec (if_pos hearly) ?_ fun hmd hc => absurd hearly (by simp [hmd, hc])
    rwa [Messages.after, if_pos hearly]
  obtain ⟨hmd, hc⟩ := not_or.mp hearly
  have hserved' := hserved hmd hc
  have hexec : ∀ hash, (t.digests.context c).final = .ok hash → t.digests.exec H (.md5Final md c) =
      .ok ((t.digests.store md hash).store c (List.replicate 92 0), 1) := by
    intro hash hhash
    change t.digests.md5Final md c = _
    rw [Digests.md5Final, if_neg hearly, hhash]
    rfl
  have htracks : ∀ hash, Tracks H ((t.digests.store md hash).store c (List.replicate 92 0))
      (t.messages.after t.digests ((t.digests.store md hash).store c (List.replicate 92 0))
        (.md5Final md c)) := by
    intro hash
    rw [Messages.after, if_neg hearly]
    exact h.kept_update (fun _ _ => rfl) fun msg hmsg => absurd hmsg (by simp)
  by_cases hmd5 : (t.messages c).any Message.isMd5 = true
  · rw [if_pos hmd5] at hserved'
    obtain ⟨m, hm⟩ := isMd5_iff.mp hmd5
    have hholds : (t.digests.context c).Holds m := h c _ hm
    have hnum : (t.digests.context c).num.toNat < 68 := hholds.absorbed.num_lt.trans (by decide)
    obtain ⟨hash, hhash⟩ := final_total hnum
    refine good_of_exec (hexec hash hhash) (htracks hash) fun _ _ m' hm' hlength => ⟨rfl, ?_⟩
    obtain rfl : m = m' := by simpa [hm] using hm'
    have hdigest := final_ok hholds hlength
    have hsize := length_md5Hash (hdigest.symm.trans hhash)
    -- the context is cleared beside the digest
    have hread : (((t.digests.mem.store md hash).store c (List.replicate 92 0)).load md 16) = hash := by
      rw [Bytes.load_store_of_apart (by rw [length_replicate]; exact hserved'), ← hsize, Bytes.load_store]
    rw [← hdigest, hhash]
    exact congrArg Except.ok hread.symm
  · rw [if_neg hmd5] at hserved'
    obtain ⟨hash, hhash⟩ := final_total hserved'
    refine good_of_exec (hexec hash hhash) (htracks hash) fun _ _ m hm => ?_
    exact absurd (isMd5_iff.mpr ⟨m, hm⟩) hmd5

lemma good_shaInit (h : Tracks H t.digests t.messages) (kind : ShaKind) (c : ℕ) :
    t.Good H (.shaInit kind c) := by
  by_cases hc : c = 0
  · refine good_of_exec (congrArg Except.ok (if_pos hc)) ?_ trivial
    rwa [Messages.after, if_pos hc]
  · refine good_of_exec (congrArg Except.ok (if_neg hc)) ?_ trivial
    rw [Messages.after, if_neg hc]
    refine h.kept_update (fun a ha => update_of_ne ha _ _) fun msg hmsg => ?_
    obtain rfl := some.inj hmsg
    exact ⟨sentinel_store, fun _ => by rw [H.update_nil]; exact update_self _ _ _⟩

lemma sha_of_not_copy (hmd5 : ¬ o.any Message.isMd5 = true) (hcopy : o.any Message.isCopy = false) :
    o = none ∨ ∃ kind m, o = some (.sha kind m false) := by
  rcases o with _ | (m | ⟨kind, m, copied⟩)
  · exact .inl rfl
  · exact absurd rfl hmd5
  · refine .inr ⟨kind, m, ?_⟩
    rw [show copied = false from hcopy]

lemma good_shaUpdate (h : Tracks H t.digests t.messages) {c data len : ℕ}
    (hserved : t.Served (.shaUpdate c data len)) : t.Good H (.shaUpdate c data len) := by
  let s := t.digests
  let input := s.mem.load data len
  by_cases hsame : c = 0 ∨ data = 0 ∨ len = 0
  · -- nothing is read, whatever is returned
    have hexec : ∃ reply, t.digests.exec H (.shaUpdate c data len) = .ok (s, reply) := by
      change ∃ reply, Except.ok (s.shaUpdateInner H c data len) = .ok (s, reply)
      unfold Digests.shaUpdateInner
      split
      · exact ⟨_, rfl⟩
      next hc =>
        split
        · exact ⟨_, rfl⟩
        · exact ⟨1, congrArg Except.ok (if_pos (by tauto))⟩
    obtain ⟨reply, hexec⟩ := hexec
    refine good_of_exec hexec ?_ trivial
    rwa [Messages.after, if_pos (by tauto)]
  · push Not at hsame
    obtain ⟨hc, hdata, hlen⟩ := hsame
    have hread : ¬ (len = 0 ∨ data = 0) := by simp [hdata, hlen]
    have hcopy := hserved hc hdata hlen
    -- a hasher is kept at the address of the context, or nothing happens
    have hexec : ∃ table reply, t.digests.exec H (.shaUpdate c data len) = .ok (⟨s.mem, table⟩, reply) ∧
        (∀ a, a ≠ c → table a = s.table a) ∧ (∀ state, s.sentinel c = shaInitSentinel →
          s.table c = some state → table c = some ⟨state.kind, H.update state.kind state.hasher input⟩) := by
      change ∃ table reply, Except.ok (s.shaUpdateInner H c data len) = .ok (⟨s.mem, table⟩, reply) ∧ _
      unfold Digests.shaUpdateInner
      rw [if_neg hc, if_neg hread]
      by_cases hsentinel : s.sentinel c ≠ shaInitSentinel
      · rw [if_pos hsentinel]
        exact ⟨s.table, 0, rfl, fun _ _ => rfl, fun _ hstamped => absurd hstamped hsentinel⟩
      · rw [if_neg hsentinel]
        cases hstate : s.table c with
        | none => exact ⟨s.table, 0, rfl, fun _ _ => rfl, by simp⟩
        | some state =>
          refine ⟨_, 1, rfl, fun a ha => update_of_ne ha _ _, fun state' _ hstate' => ?_⟩
          obtain rfl := some.inj hstate'
          exact update_self _ _ _
    obtain ⟨table, reply, hexec, houtside, htable⟩ := hexec
    refine good_of_exec hexec ?_ trivial
    have hkept : t.messages.kept s ⟨s.mem, table⟩ = t.messages := kept_of_mem rfl
    by_cases hmd5 : (t.messages c).any Message.isMd5 = true
    · rw [Messages.after, if_pos (by tauto), ← hkept]
      refine h.kept fun a msg hmsg => ?_
      by_cases ha : a = c
      · subst ha
        rw [hmsg] at hmd5
        exact .inl hmd5
      · exact .inr (houtside a ha)
    · rw [Messages.after, if_neg (by simp [hc, hdata, hlen, hmd5]), ← hkept]
      refine h.kept_update houtside fun msg hmsg => ?_
      rcases sha_of_not_copy hmd5 hcopy with hnone | ⟨kind, m, hm⟩
      · rw [hkept, hnone] at hmsg
        cases hmsg
      · rw [hkept, hm] at hmsg
        obtain rfl := some.inj hmsg
        obtain ⟨hstamped, hstate⟩ := h c _ hm
        refine ⟨hstamped, fun _ => ?_⟩
        rw [H.update_append]
        exact htable _ hstamped (hstate rfl)

lemma good_shaFinal (h : Tracks H t.digests t.messages) {kind : ShaKind} {md c : ℕ}
    (hserved : t.Served (.shaFinal kind md c)) : t.Good H (.shaFinal kind md c) := by
  by_cases hearly : md = 0 ∨ c = 0
  · refine good_of_exec (if_pos hearly) ?_ fun hmd hc => absurd hearly (by simp [hmd, hc])
    rwa [Messages.after, if_pos hearly]
  obtain ⟨hmd, hc⟩ := not_or.mp hearly
  obtain ⟨hcopy, hkind⟩ := hserved hmd hc
  let s := t.digests
  -- the hasher at the address of the context may go, and no other does
  have hexec : ∃ s' reply, t.digests.exec H (.shaFinal kind md c) = .ok (s', reply) ∧
      (∀ a, a ≠ c → s'.table a = s.table a) ∧ (∀ state, s.sentinel c = shaInitSentinel →
        s.table c = some state → reply = 1 ∧
          s'.mem.load md kind.digestLen = H.finalize state.kind state.hasher) := by
    change ∃ s' reply, s.shaFinalInner H md c kind.digestLen = .ok (s', reply) ∧ _
    unfold Digests.shaFinalInner
    rw [if_neg hearly]
    by_cases hsentinel : s.sentinel c ≠ shaInitSentinel
    · rw [if_pos hsentinel]
      exact ⟨s, 0, rfl, fun _ _ => rfl, fun _ hstamped => absurd hstamped hsentinel⟩
    · rw [if_neg hsentinel]
      cases hstate : s.table c with
      | none =>
        exact ⟨_, 0, rfl, fun a ha => update_of_ne ha _ _, by simp⟩
      | some state =>
        have hsame : state.kind = kind := hkind (not_not.mp hsentinel) state hstate
        have hlength := H.length_finalize state.kind state.hasher
        rw [hsame] at hlength
        simp only [Option.elim, hsame, if_pos hlength]
        refine ⟨_, 1, rfl, fun a ha => update_of_ne ha _ _, fun state' _ hstate' => ?_⟩
        obtain rfl := some.inj hstate'
        rw [hsame, ← hlength]
        exact ⟨rfl, Bytes.load_store⟩
  obtain ⟨s', reply, hexec, houtside, hdigest⟩ := hexec
  refine good_of_exec hexec ?_ fun _ _ m copied hm => ?_
  · by_cases hmd5 : (t.messages c).any Message.isMd5 = true
    · rw [Messages.after, if_neg hearly, if_pos hmd5]
      refine h.kept fun a msg hmsg => ?_
      by_cases ha : a = c
      · subst ha
        rw [hmsg] at hmd5
        exact .inl hmd5
      · exact .inr (houtside a ha)
    · rw [Messages.after, if_neg hearly, if_neg hmd5]
      exact h.kept_update houtside fun msg hmsg => absurd hmsg (by simp)
  · rw [hm] at hcopy
    obtain ⟨hstamped, hstate⟩ := h c _ hm
    exact hdigest _ hstamped (hstate hcopy)

lemma good_write (h : Tracks H t.digests t.messages) (start : ℕ) (bytes : List UInt8) :
    t.Good H (.write start bytes) :=
  good_of_exec rfl (h.kept fun _ _ _ => .inr rfl) trivial

lemma good_copy (h : Tracks H t.digests t.messages) (dest src len : ℕ) :
    t.Good H (.copy dest src len) := by
  refine good_of_exec rfl ?_ trivial
  have hkept : Tracks H ⟨t.digests.mem.copyWithin src len dest, t.digests.table⟩
      (t.messages.kept t.digests ⟨t.digests.mem.copyWithin src len dest, t.digests.table⟩) :=
    h.kept fun _ _ _ => .inr rfl
  intro c msg hmsg
  rw [Messages.after] at hmsg
  by_cases hle : dest ≤ c
  · simp only [if_pos hle] at hmsg
    cases hfrom : (t.messages (src + (c - dest))).filter fun msg => c + msg.size ≤ dest + len with
    | none =>
      rw [hfrom] at hmsg
      exact hkept c msg hmsg
    | some old =>
      rw [hfrom] at hmsg
      obtain rfl := some.inj hmsg
      obtain ⟨hold, hinside⟩ := filter_eq_some_iff.mp hfrom
      have hvalid := h _ _ hold
      have hbytes : (t.digests.mem.copyWithin src len dest).load c old.size =
          t.digests.mem.load (src + (c - dest)) old.size :=
        Bytes.load_copyWithin hle (of_decide_eq_true hinside)
      cases old with
      | md5 m =>
        let s' : Digests σ := ⟨t.digests.mem.copyWithin src len dest, t.digests.table⟩
        have hcontext : s'.context c = t.digests.context (src + (c - dest)) := congrArg ofBytes hbytes
        change (s'.context c).Holds m
        rw [hcontext]
        exact hvalid
      | sha kind m copied =>
        have hsentinel := congrArg (fun bytes => UInt32.ofNat (fromLeBytes bytes)) hbytes
        obtain ⟨hstamped, htable⟩ := hvalid
        refine ⟨hsentinel.trans hstamped, fun hoff => ?_⟩
        obtain ⟨hsame, hcopied⟩ := Bool.or_eq_false_iff.mp hoff
        obtain rfl : src = dest := by simpa using hsame
        have hback : src + (c - src) = c := by omega
        rw [hback] at htable
        exact htable hcopied
  · simp only [if_neg hle] at hmsg
    exact hkept c msg hmsg

lemma good_of_served (h : Tracks H t.digests t.messages) (hserved : t.Served command) :
    t.Good H command := by
  cases command with
  | md5Init c => exact good_md5Init h c
  | md5Update c data len => exact good_md5Update h hserved
  | md5Final md c => exact good_md5Final h hserved
  | shaInit kind c => exact good_shaInit h kind c
  | shaUpdate c data len => exact good_shaUpdate h hserved
  | shaFinal kind md c => exact good_shaFinal h hserved
  | write start bytes => exact good_write h start bytes
  | copy dest src len => exact good_copy h dest src len

end Traced

lemma incremental_of_served {t : Traced σ} {commands : List DigestCommand}
    (h : Tracks H t.digests t.messages) (hserved : Along (Traced.step H) Traced.Served t commands) :
    (∃ t', run (Traced.step H) t commands = .ok t') ∧
      Along (Traced.step H) (fun t command => ∀ t', t.step H command = .ok t' → t.Right H command t')
        t commands := by
  induction commands generalizing t with
  | nil => exact ⟨⟨t, run_nil⟩, trivial⟩
  | cons command commands ih =>
    obtain ⟨t', hstep, htracks, hright⟩ := Traced.good_of_served h hserved.1
    obtain ⟨⟨t'', hrun⟩, halong⟩ := ih htracks (hserved.2 t' hstep)
    refine ⟨⟨t'', run_cons_eq_ok.mpr ⟨t', hstep, hrun⟩⟩, fun u hu => ?_, fun u hu => ?_⟩
    · obtain rfl := Except.ok.inj (hstep.symm.trans hu)
      exact hright
    · obtain rfl := Except.ok.inj (hstep.symm.trans hu)
      exact halong

lemma tracks_start (mem : Bytes) : Tracks H ⟨mem, fun _ => none⟩ fun _ => none :=
  fun _ _ hmsg => absurd hmsg (some_ne_none _).symm

/-- In every run, nothing panics and every digest is that of what its context was given, if no
context for MD5 is used that is overfull, no copy of one for SHA is, and no context is finished as
one of another kind. -/
theorem digests_are_incremental (H : Hasher σ) (mem : Bytes) (commands : List DigestCommand)
    (h : Along (Traced.step H) Traced.Served (.start mem) commands) : Incremental H mem commands :=
  incremental_of_served (tracks_start mem) h

def abcSha1 : List UInt8 := [
  0xa9, 0x99, 0x3e, 0x36, 0x47, 0x06, 0x81, 0x6a, 0xba, 0x3e, 0x25, 0x71, 0x78, 0x50, 0xc2, 0x6c,
  0x9c, 0xd0, 0xd8, 0x9d]

def collected (kind : ShaKind) (m : List UInt8) : List UInt8 :=
  if kind = .sha1 ∧ m = [97, 98, 99] then abcSha1 else List.replicate kind.digestLen 0

lemma length_collected (kind : ShaKind) (m : List UInt8) :
    (collected kind m).length = kind.digestLen := by
  unfold collected
  split
  next h =>
    rw [h.1]
    rfl
  next => exact length_replicate

def collector : Hasher (List UInt8) where
  new _ := []
  update _ state input := state ++ input
  finalize := collected
  update_nil _ state := append_nil state
  update_append _ state p q := (append_assoc state p q).symm
  length_finalize := length_collected

def lettersInTurns : List DigestCommand := [
  .write 4096 [97, 98, 99], .md5Init 8192, .shaInit .sha1 12288, .md5Update 8192 4096 1,
  .shaUpdate 12288 4096 2, .copy 16384 8192 92, .md5Update 16384 4097 2, .shaUpdate 12288 4098 1,
  .md5Final 20480 16384, .md5Final 20496 8192, .shaFinal .sha1 20512 12288]

theorem letters_have_their_digests : Incremental collector (fun _ => 0) lettersInTurns :=
  digests_are_incremental collector (fun _ => 0) lettersInTurns (by decide +kernel)

def overfullFinal : List DigestCommand := [.write 4096 (List.replicate 92 255), .md5Final 8192 4096]

def copiedFinal : List DigestCommand :=
  [.shaInit .sha1 4096, .copy 8192 4096 96, .shaFinal .sha1 12288 8192]

theorem digests_go_wrong : ¬ Incremental collector (fun _ => 0) overfullFinal ∧
    ¬ Incremental collector (fun _ => 0) copiedFinal := by
  constructor
  · rintro ⟨⟨t, hrun⟩, -⟩
    have hpanic : fault (run (Traced.step collector) (.start fun _ => 0) overfullFinal) = some .index := by
      decide +kernel
    rw [hrun] at hpanic
    cases hpanic
  · rintro ⟨-, halong⟩
    have hlast := ((halong.2 _ rfl).2 _ rfl).1 _ rfl
    have hreply := hlast (by decide) (by decide) [] true rfl
    exact absurd hreply.1 (by decide)

end TouchHle.Crypto
