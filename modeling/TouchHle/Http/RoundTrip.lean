import TouchHle.Http.Message

namespace TouchHle.Http

open Lib List
open Trainer (trim isWhitespace)

variable {s t line name value : Text} {c : Char} {ls : List Text}

lemma linesFrom_line (h : '\n' ∉ s) (line t : Text) :
    linesFrom line (s ++ crlf ++ t) = (line ++ s) :: linesFrom [] t := by
  induction s generalizing line with
  | nil =>
    have hstrip : stripCr (line ++ ['\r']) = line := by simp [stripCr]
    simp [crlf, linesFrom, hstrip]
  | cons c s ih =>
    rw [mem_cons, not_or] at h
    rw [cons_append, cons_append, linesFrom, if_neg (Ne.symm h.1), ih h.2, append_assoc,
      singleton_append]

lemma lines_flatMap (h : ∀ l ∈ ls, '\n' ∉ l) : lines (ls.flatMap (· ++ crlf)) = ls := by
  induction ls with
  | nil => rfl
  | cons l ls ih =>
    rw [forall_mem_cons] at h
    rw [flatMap_cons, lines, linesFrom_line h.1, nil_append, ← lines, ih h.2]

lemma newline_notMem_encode (h : c ≠ '\n') : 10 ∉ String.utf8EncodeChar c := by
  by_cases hc : c.toNat < 0x80
  · rw [encode_ascii hc, mem_singleton]
    intro heq
    have hten := toNat_ascii hc
    rw [← heq] at hten
    exact h (Char.toNat_inj.mp hten.symm)
  · exact fun hten => utf8EncodeChar_high (not_lt.mp hc) 10 hten (by decide)

lemma newline_notMem_utf8 (h : '\n' ∉ s) : 10 ∉ utf8 s := by
  intro hmem
  obtain ⟨c, hc, hten⟩ := mem_flatMap.mp hmem
  exact newline_notMem_encode (fun heq => h (heq ▸ hc)) hten

def headBytes (ls : List Text) : List UInt8 := utf8 (ls.flatMap (· ++ crlf))

lemma headBytes_cons (l : Text) (ls : List Text) : headBytes (l :: ls) = utf8 l ++ 13 :: 10 :: headBytes ls := by
  rw [headBytes, flatMap_cons, utf8_append, utf8_append, append_assoc]
  rfl

lemma findHeaderEnd_line {l rest : List UInt8} (h : 10 ∉ l) (hrest : [10].isPrefixOf rest = false) :
    findHeaderEnd (l ++ 13 :: 10 :: rest) =
      if [13, 10].isPrefixOf rest = true then some (l.length + 2)
      else (findHeaderEnd rest).map (· + (l.length + 2)) := by
  induction l with
  | nil =>
    have hcrlf : [13, 10, 13, 10].isPrefixOf (13 :: 10 :: rest) = [13, 10].isPrefixOf rest := by
      simp [List.isPrefixOf]
    have hlf : [10, 10].isPrefixOf (10 :: rest) = false := by simpa [List.isPrefixOf] using hrest
    rw [nil_append, findHeaderEnd, hcrlf, findHeaderEnd, hlf]
    by_cases hblank : [13, 10].isPrefixOf rest = true
    · rw [if_pos hblank, if_pos hblank, length_nil, Nat.zero_add]
    · rw [if_neg hblank, if_neg hblank]
      simp [List.isPrefixOf, Option.map_map, Function.comp_def]
  | cons x l ih =>
    rw [mem_cons, not_or] at h
    have hcrlf : [13, 10, 13, 10].isPrefixOf (x :: (l ++ 13 :: 10 :: rest)) = false := by
      rcases l with _ | ⟨y, l⟩
      · simp [List.isPrefixOf]
      · have hy : 10 ≠ y := fun heq => h.2 (heq ▸ mem_cons_self)
        simp [List.isPrefixOf, hy]
    have hlf : [10, 10].isPrefixOf (x :: (l ++ 13 :: 10 :: rest)) = false := by
      simp [List.isPrefixOf, h.1]
    rw [cons_append, findHeaderEnd, hcrlf, hlf, ih h.2, if_neg Bool.false_ne_true,
      if_neg Bool.false_ne_true]
    by_cases hblank : [13, 10].isPrefixOf rest = true
    · rw [if_pos hblank, if_pos hblank]
      rfl
    · rw [if_neg hblank, if_neg hblank, Option.map_map]
      rfl

lemma length_headBytes_cons (l : Text) (ls : List Text) :
    (headBytes (l :: ls)).length = (headBytes ls).length + ((utf8 l).length + 2) := by
  rw [headBytes_cons, length_append, length_cons, length_cons]
  omega

lemma findHeaderEnd_headBytes (body : List UInt8) (l : Text) (hl : '\n' ∉ l)
    (h : ∀ l ∈ ls, '\n' ∉ l ∧ l ≠ []) :
    findHeaderEnd (headBytes (l :: ls) ++ 13 :: 10 :: body) = some (headBytes (l :: ls)).length := by
  induction ls generalizing l with
  | nil =>
    have hblank : [13, 10].isPrefixOf (13 :: 10 :: body) = true := by simp [List.isPrefixOf]
    have hrest : [10].isPrefixOf (13 :: 10 :: body) = false := by simp [List.isPrefixOf]
    have hnone : (headBytes []).length = 0 := rfl
    rw [length_headBytes_cons, headBytes_cons, append_assoc, hnone, Nat.zero_add]
    exact (findHeaderEnd_line (newline_notMem_utf8 hl) hrest).trans (if_pos hblank)
  | cons l' ls ih =>
    obtain ⟨⟨hl', hne⟩, hls⟩ := forall_mem_cons.mp h
    obtain ⟨b, bs, hbytes⟩ : ∃ b bs, utf8 l' = b :: bs := by
      refine exists_cons_of_ne_nil fun hnil => hne ?_
      exact utf8_injective hnil
    have hten : 10 ∉ b :: bs := hbytes ▸ newline_notMem_utf8 hl'
    rw [mem_cons, not_or] at hten
    let rest := headBytes (l' :: ls) ++ 13 :: 10 :: body
    have hrest : rest = b :: (bs ++ 13 :: 10 :: (headBytes ls ++ 13 :: 10 :: body)) := by
      simp [rest, headBytes_cons, hbytes]
    have hnot : [10].isPrefixOf rest = false := by simp [hrest, List.isPrefixOf, hten.1]
    have hblank : ¬ [13, 10].isPrefixOf rest = true := by
      rcases bs with _ | ⟨b', bs⟩
      · simp [hrest, List.isPrefixOf]
      · have hb' : 10 ≠ b' := fun heq => hten.2 (heq ▸ mem_cons_self)
        simp [hrest, List.isPrefixOf, hb']
    rw [length_headBytes_cons, headBytes_cons, append_assoc]
    refine (findHeaderEnd_line (newline_notMem_utf8 hl) hnot).trans ?_
    rw [if_neg hblank, ih l' hl' hls]
    rfl

lemma trim_space (v : Text) : trim (' ' :: v) = trim v := rfl

lemma digits_isDigit (n : ℕ) (hc : c ∈ Nat.toDigits 10 n) : c.isDigit = true :=
  Nat.isDigit_of_mem_toDigits (by decide) (by decide) hc

lemma digits_notMem {n : ℕ} (hc : c.isDigit = false) : c ∉ Nat.toDigits 10 n := by
  intro hmem
  rw [digits_isDigit _ hmem] at hc
  cases hc

lemma parseI32_decimal (n : Int32) : parseI32 (decimal n.toInt) = some n := by
  have hlow := n.le_toInt
  have hhigh := n.toInt_lt
  have hvalue := Trainer.fromDigits_decimal n.toInt.natAbs
  rw [parseI32, decimal]
  split
  next hneg =>
    have habs : -(n.toInt.natAbs : ℤ) = n.toInt := by omega
    rw [Trainer.fromStrRadix_negative Nat.toDigits_ne_nil hvalue (by decide) (by omega) (by omega), habs,
      Option.map_some, Int32.ofInt_toInt]
  next hneg =>
    have habs : (n.toInt.natAbs : ℤ) = n.toInt := by omega
    rw [Trainer.fromStrRadix_unsigned Nat.toDigits_ne_nil (digits_notMem rfl) (digits_notMem rfl) hvalue
      (by omega) (by omega), habs, Option.map_some, Int32.ofInt_toInt]

lemma decimal_notMem {n : ℤ} (hc : c.isDigit = false) (hminus : c ≠ '-') : c ∉ decimal n := by
  have hdigits : c ∉ Nat.toDigits 10 n.natAbs := digits_notMem hc
  unfold decimal
  split
  · simp [hminus, hdigits]
  · exact hdigits

lemma ite_notMem {p : Prop} [Decidable p] (hs : c ∉ s) (ht : c ∉ t) : c ∉ if p then s else t := by
  split
  · exact hs
  · exact ht

lemma statusReason_notMem (code : Int32) : '\n' ∉ statusReason code := by
  unfold statusReason
  repeat refine ite_notMem (by decide) ?_
  decide

lemma splitn_three {a b : Text} (ha : ' ' ∉ a) (hb : ' ' ∉ b) (s : Text) :
    splitn ' ' 3 (a ++ ' ' :: (b ++ ' ' :: s)) = [a, b, s] := by
  rw [splitn, Text.splitOnce_append ha]
  simp only
  rw [splitn, Text.splitOnce_append hb]
  rfl

lemma isWhitespace_newline : isWhitespace '\n' = true := rfl

namespace CFHTTPMessage

def IsToken (s : Text) : Prop := ∀ c ∈ s, isWhitespace c = false

structure Valid (msg : CFHTTPMessage) : Prop where
  method : IsToken msg.method
  requestUrl : IsToken msg.requestUrl
  version : IsToken msg.version
  names : ∀ header ∈ msg.headers, trim header.1 = header.1 ∧ ':' ∉ header.1 ∧ '\n' ∉ header.1
  values : ∀ header ∈ msg.headers, trim header.2 = header.2 ∧ '\n' ∉ header.2

variable {msg : CFHTTPMessage}

lemma IsToken.notMem (h : IsToken s) (hc : isWhitespace c = true) : c ∉ s := by
  intro hmem
  rw [h c hmem] at hc
  cases hc

def target (msg : CFHTTPMessage) : Text := if msg.requestUrl = [] then ['/'] else msg.requestUrl

lemma isToken_target (h : IsToken msg.requestUrl) : IsToken msg.target := by
  unfold target
  split
  · intro c hc
    obtain rfl := mem_singleton.mp hc
    rfl
  · exact h

lemma startLine_notMem (h : msg.Valid) : '\n' ∉ msg.startLine := by
  have hmethod := h.method.notMem isWhitespace_newline
  have htarget := (isToken_target h.requestUrl).notMem isWhitespace_newline
  have hversion := h.version.notMem isWhitespace_newline
  have hcode : '\n' ∉ decimal msg.statusCode.toInt := decimal_notMem rfl (by decide)
  unfold target at htarget
  unfold startLine
  split
  · simp [hmethod, htarget, hversion]
  · simp [hversion, hcode, statusReason_notMem]

lemma headerLine_notMem (h : msg.Valid) {header : Text × Text} (hheader : header ∈ msg.headers) :
    '\n' ∉ headerLine header ∧ headerLine header ≠ [] := by
  constructor
  · simp [headerLine, (h.names header hheader).2.2, (h.values header hheader).2]
  · simp [headerLine]

lemma parseHeaders_headerLines (h : msg.Valid) : parseHeaders (msg.headers.map headerLine) = msg.headers := by
  have hnonempty : (msg.headers.map headerLine).takeWhile (· ≠ []) = msg.headers.map headerLine := by
    rw [takeWhile_eq_self_iff]
    intro line hline
    obtain ⟨header, hheader, rfl⟩ := mem_map.mp hline
    exact decide_eq_true (headerLine_notMem h hheader).2
  rw [parseHeaders, hnonempty, filterMap_map]
  refine (filterMap_congr fun header hheader => ?_).trans filterMap_some
  obtain ⟨hname, hcolon, -⟩ := h.names header hheader
  rw [Function.comp_apply, headerLine, Text.splitOnce_append hcolon, Option.map_some, trim_space, hname,
    (h.values header hheader).1]

lemma copySerializedMessage_eq : msg.copySerializedMessage =
    headBytes (msg.startLine :: msg.headers.map headerLine) ++ 13 :: 10 :: msg.body := by
  have hcrlf : utf8 crlf = [13, 10] := rfl
  rw [copySerializedMessage, hcrlf, headBytes, flatMap_cons, flatMap_map, utf8_append]
  simp

lemma lines_headText (h : msg.Valid) :
    lines ((msg.startLine :: msg.headers.map headerLine).flatMap (· ++ crlf)) =
      msg.startLine :: msg.headers.map headerLine := by
  apply lines_flatMap
  intro l hl
  rcases mem_cons.mp hl with rfl | hl
  · exact startLine_notMem h
  · obtain ⟨header, hheader, rfl⟩ := mem_map.mp hl
    exact (headerLine_notMem h hheader).1

lemma appendBytes_serialized (h : msg.Valid) (fresh : CFHTTPMessage) (hbody : fresh.body = [])
    (hcomplete : fresh.headerComplete = false) :
    (fresh.appendBytes msg.copySerializedMessage).1 =
      { fresh.parseStartLine msg.startLine with
        headers := fresh.headers ++ msg.headers, body := msg.body, headerComplete := true } := by
  obtain ⟨isRequest, method, version, requestUrl, statusCode, headers, body, complete⟩ := fresh
  change body = [] at hbody
  change complete = false at hcomplete
  subst hbody hcomplete
  let head := headBytes (msg.startLine :: msg.headers.map headerLine)
  have hserialized : msg.copySerializedMessage = head ++ 13 :: 10 :: msg.body := copySerializedMessage_eq
  have hne : msg.copySerializedMessage ≠ [] := by
    rw [hserialized]
    simp
  have hend : findHeaderEnd msg.copySerializedMessage = some head.length := by
    rw [hserialized]
    refine findHeaderEnd_headBytes msg.body _ (startLine_notMem h) fun l hl => ?_
    obtain ⟨header, hheader, rfl⟩ := mem_map.mp hl
    exact headerLine_notMem h hheader
  have hrest : msg.copySerializedMessage.drop head.length = 13 :: 10 :: msg.body := by
    rw [hserialized, drop_left]
  have hseparator : separatorLength (13 :: 10 :: msg.body) = 2 := by simp [separatorLength, List.isPrefixOf]
  have htext : fromUtf8Lossy (msg.copySerializedMessage.take head.length) =
      (msg.startLine :: msg.headers.map headerLine).flatMap (· ++ crlf) := by
    rw [hserialized, take_left]
    exact fromUtf8Lossy_utf8 _
  have hread : ∀ m : CFHTTPMessage, m.parseHeadInto
      ((msg.startLine :: msg.headers.map headerLine).flatMap (· ++ crlf)) =
        { m.parseStartLine msg.startLine with headers := m.headers ++ msg.headers } := by
    intro m
    rw [parseHeadInto, lines_headText h]
    simp only [parseHeaders_headerLines h]
  have hstart := parseStartLine_body
    ⟨isRequest, method, version, requestUrl, statusCode, headers, [], false⟩ msg.startLine msg.body
  have hbody : (13 :: 10 :: msg.body).drop 2 = msg.body := rfl
  simp only [appendBytes, if_neg hne, nil_append, Bool.false_eq_true, if_false, hend, Option.elim,
    splitHead, hrest, hseparator, htext, hread, hbody, hstart]

structure StartLine where
  method : Text
  requestUrl : Text
  version : Text
  statusCode : Int32
  deriving DecidableEq

def fields (msg : CFHTTPMessage) : StartLine :=
  if msg.isRequest then ⟨msg.method, msg.requestUrl, msg.version, 0⟩
  else ⟨[], [], msg.version, msg.statusCode⟩

def readBack (msg : CFHTTPMessage) : CFHTTPMessage :=
  ((createEmpty msg.isRequest).appendBytes msg.copySerializedMessage).1

def ReadsBack (msg : CFHTTPMessage) : Prop :=
  msg.readBack.fields = { msg with requestUrl := msg.target }.fields ∧
    msg.readBack.headers = msg.headers ∧ msg.readBack.body = msg.body

lemma parseStartLine_request (h : msg.Valid) (hkind : msg.isRequest = true) :
    (createEmpty true).parseStartLine msg.startLine =
      { createEmpty true with method := msg.method, requestUrl := msg.target, version := msg.version } := by
  have hline : msg.startLine = msg.method ++ ' ' :: (msg.target ++ ' ' :: msg.version) := by
    rw [startLine, if_pos hkind]
    rfl
  have hparts := splitn_three (h.method.notMem rfl) ((isToken_target h.requestUrl).notMem rfl) msg.version
  rw [parseStartLine, hline, hparts]
  rfl

lemma parseStartLine_response (h : msg.Valid) (hkind : msg.isRequest = false) :
    (createEmpty false).parseStartLine msg.startLine =
      { createEmpty false with version := msg.version, statusCode := msg.statusCode } := by
  have hline : msg.startLine =
      msg.version ++ ' ' :: (decimal msg.statusCode.toInt ++ ' ' :: statusReason msg.statusCode) := by
    rw [startLine, hkind]
    rfl
  have hcode : ' ' ∉ decimal msg.statusCode.toInt := decimal_notMem rfl (by decide)
  have hparts := splitn_three (h.version.notMem rfl) hcode (statusReason msg.statusCode)
  have hempty : (createEmpty false).isRequest = false := rfl
  rw [parseStartLine, hline, hparts, hempty, if_neg Bool.false_ne_true]
  simp only [parseI32_decimal, Option.getD_some]
  rfl

lemma readsBack_of_valid (h : msg.Valid) : msg.ReadsBack := by
  have hread := appendBytes_serialized h (createEmpty msg.isRequest) rfl rfl
  cases hkind : msg.isRequest with
  | true =>
    rw [hkind, parseStartLine_request h hkind] at hread
    refine ⟨?_, ?_, ?_⟩
    · rw [readBack, hkind, hread]
      simp [fields, createEmpty]
    · rw [readBack, hkind, hread]
      rfl
    · rw [readBack, hkind, hread]
  | false =>
    rw [hkind, parseStartLine_response h hkind] at hread
    refine ⟨?_, ?_, ?_⟩
    · rw [readBack, hkind, hread]
      simp [fields, createEmpty]
    · rw [readBack, hkind, hread]
      rfl
    · rw [readBack, hkind, hread]

/-- Chunks are as good as the whole, and a message built from valid parts is read back as it was
written, but for an empty URL. -/
theorem appends_and_reads_back (msg : CFHTTPMessage) :
    (∀ chunks, msg.appendChunks chunks = msg.appendChunks [chunks.flatten]) ∧ (msg.Valid → msg.ReadsBack) := by
  refine ⟨fun chunks => ?_, readsBack_of_valid⟩
  rw [appendChunks_eq, appendChunks_eq, List.flatten_singleton]

def upload : CFHTTPMessage :=
  { createRequest (some "POST".toList) (some "/a".toList) none with
    headers := [("Host".toList, "b".toList), ("X".toList, [])], body := [13, 10, 13, 10, 0] }

lemma isToken_of_all (h : s.all (fun c => !isWhitespace c) = true) : IsToken s := by
  simpa [IsToken] using h

lemma valid_upload : upload.Valid where
  method := isToken_of_all (by decide)
  requestUrl := isToken_of_all (by decide)
  version := isToken_of_all (by decide)
  names := by decide
  values := by decide

theorem upload_reads_back : upload.appendChunks [[1], [2, 3]] = upload.appendChunks [[1, 2, 3]] ∧ upload.ReadsBack :=
  ⟨(appends_and_reads_back upload).1 [[1], [2, 3]], (appends_and_reads_back upload).2 valid_upload⟩

def Unchanged (msg : CFHTTPMessage) : Prop :=
  msg.readBack.fields = msg.fields ∧ msg.readBack.headers = msg.headers ∧ msg.readBack.body = msg.body

def withoutUrl : CFHTTPMessage := createRequest none none none

def withHeader (name value : Text) : CFHTTPMessage :=
  (createResponse 200 none).setHeaderFieldValue name (some value)

theorem parts_are_not_kept : ¬ withoutUrl.Unchanged ∧ ¬ (withHeader ['a'] [' ', 'b']).Unchanged ∧
    ¬ (withHeader ['a', '\n', 'b'] []).Unchanged := by
  refine ⟨?_, ?_, ?_⟩
  · rintro ⟨h, -⟩
    revert h
    decide +kernel
  · rintro ⟨-, h, -⟩
    revert h
    decide +kernel
  · rintro ⟨-, h, -⟩
    revert h
    decide +kernel

end CFHTTPMessage

end TouchHle.Http
