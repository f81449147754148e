import TouchHle.Lib.Text
import TouchHle.Lib.Unicode
import TouchHle.Trainer.Values

namespace TouchHle.Http

open Lib List Option
open Trainer (trim isWhitespace)

structure CFHTTPMessage where
  isRequest : Bool
  method : Text
  version : Text
  requestUrl : Text
  statusCode : Int32
  headers : List (Text × Text)
  body : List UInt8
  headerComplete : Bool
  deriving DecidableEq

def crlf : Text := ['\r', '\n']

def stripCr (line : Text) : Text := if line.getLast? = some '\r' then line.dropLast else line

def linesFrom (line : Text) : Text → List Text
  | [] => if line = [] then [] else [line]
  | c :: s => if c = '\n' then stripCr line :: linesFrom [] s else linesFrom (line ++ [c]) s

def lines (s : Text) : List Text := linesFrom [] s

def splitn (c : Char) : ℕ → Text → List Text
  | 0, _ => []
  | 1, s => [s]
  | n + 2, s =>
    match Text.splitOnce c s with
    | some (before, after) => before :: splitn c (n + 1) after
    | none => [s]

def decimal (n : ℤ) : Text :=
  if n < 0 then '-' :: Nat.toDigits 10 n.natAbs else Nat.toDigits 10 n.natAbs

def parseI32 (s : Text) : Option Int32 :=
  (Trainer.fromStrRadix (-2 ^ 31) (2 ^ 31 - 1) 10 s).map Int32.ofInt

def eqIgnoreAsciiCase (a b : Text) : Bool := a.map Char.toLower == b.map Char.toLower

def statusReason (code : Int32) : Text :=
  if code = 100 then "Continue".toList
  else if code = 200 then "OK".toList
  else if code = 201 then "Created".toList
  else if code = 204 then "No Content".toList
  else if code = 301 then "Moved Permanently".toList
  else if code = 302 then "Found".toList
  else if code = 304 then "Not Modified".toList
  else if code = 400 then "Bad Request".toList
  else if code = 401 then "Unauthorized".toList
  else if code = 403 then "Forbidden".toList
  else if code = 404 then "Not Found".toList
  else if code = 500 then "Internal Server Error".toList
  else if code = 503 then "Service Unavailable".toList
  else "OK".toList

def findHeaderEnd : List UInt8 → Option ℕ
  | [] => none
  | b :: buf =>
    if [13, 10, 13, 10].isPrefixOf (b :: buf) then some 2
    else if [10, 10].isPrefixOf (b :: buf) then some 1
    else (findHeaderEnd buf).map (· + 1)

def separatorLength (rest : List UInt8) : ℕ :=
  if [13, 10].isPrefixOf rest then 2 else if [10].isPrefixOf rest then 1 else 0

namespace CFHTTPMessage

def defaultVersion : Text := "HTTP/1.1".toList

def versionString (version : Option Text) : Text :=
  version.elim defaultVersion fun v => if v = [] then defaultVersion else v

def createRequest (method url version : Option Text) : CFHTTPMessage :=
  ⟨true, method.getD "GET".toList, versionString version, url.getD [], 0, [], [], false⟩

def createResponse (statusCode : Int32) (version : Option Text) : CFHTTPMessage :=
  ⟨false, [], versionString version, [], statusCode, [], [], false⟩

def createEmpty (isRequest : Bool) : CFHTTPMessage :=
  ⟨isRequest, [], defaultVersion, [], 0, [], [], false⟩

variable (msg : CFHTTPMessage)

def setHeaderFieldValue (name : Text) (value : Option Text) : CFHTTPMessage :=
  let others := msg.headers.filter fun header => !eqIgnoreAsciiCase header.1 name
  { msg with headers := others ++ value.elim [] fun v => [(name, v)] }

def copyHeaderFieldValue (name : Text) : Option Text :=
  (msg.headers.find? fun header => eqIgnoreAsciiCase header.1 name).map Prod.snd

def parseStartLine (first : Text) : CFHTTPMessage :=
  if msg.isRequest then
    match splitn ' ' 3 first with
    | m :: u :: v :: _ => { msg with method := m, requestUrl := u, version := v }
    | _ => msg
  else
    match splitn ' ' 3 first with
    | v :: c :: _ => { msg with version := v, statusCode := (parseI32 c).getD msg.statusCode }
    | _ => msg

def parseHeaders (ls : List Text) : List (Text × Text) :=
  (ls.takeWhile (· ≠ [])).filterMap fun line =>
    (Text.splitOnce ':' line).map fun p => (trim p.1, trim p.2)

def parseHeadInto (text : Text) : CFHTTPMessage :=
  match lines text with
  | [] => msg
  | first :: rest =>
    { msg.parseStartLine first with headers := msg.headers ++ parseHeaders rest }

def splitHead (headEnd : ℕ) : CFHTTPMessage :=
  let rest := msg.body.drop headEnd
  let parsed := { msg with body := rest.drop (separatorLength rest) }.parseHeadInto
    (fromUtf8Lossy (msg.body.take headEnd))
  { parsed with headerComplete := true }

def appendBytes (newBytes : List UInt8) : CFHTTPMessage × Bool :=
  if newBytes = [] then (msg, false)
  else
    let msg := { msg with body := msg.body ++ newBytes }
    if msg.headerComplete then (msg, true)
    else ((findHeaderEnd msg.body).elim msg msg.splitHead, true)

def startLine : Text :=
  if msg.isRequest then
    let target := if msg.requestUrl = [] then ['/'] else msg.requestUrl
    msg.method ++ ' ' :: (target ++ ' ' :: msg.version)
  else msg.version ++ ' ' :: (decimal msg.statusCode.toInt ++ ' ' :: statusReason msg.statusCode)

def headerLine (header : Text × Text) : Text := header.1 ++ ':' :: ' ' :: header.2

def copySerializedMessage : List UInt8 :=
  utf8 (msg.startLine ++ crlf) ++ utf8 (msg.headers.flatMap fun header => headerLine header ++ crlf) ++
    utf8 crlf ++ msg.body

end CFHTTPMessage

variable {a b buf : List UInt8} {e : ℕ}

lemma lt_of_findHeaderEnd (h : findHeaderEnd a = some e) : 2 ≤ a.length := by
  rcases a with _ | ⟨x, _ | ⟨y, a⟩⟩
  · cases h
  · simp [findHeaderEnd, List.isPrefixOf] at h
  · simp

lemma findHeaderEnd_append (h : findHeaderEnd a = some e) : findHeaderEnd (a ++ b) = some e := by
  induction a generalizing e with
  | nil => cases h
  | cons x a ih =>
    by_cases hcrlf : [13, 10, 13, 10].isPrefixOf (x :: a) = true
    · have hmore : [13, 10, 13, 10].isPrefixOf (x :: (a ++ b)) = true := by
        rw [ isPrefixOf_iff_prefix] at hcrlf ⊢
        exact hcrlf.trans ⟨b, rfl⟩
      rw [findHeaderEnd, if_pos hcrlf] at h
      rwa [cons_append, findHeaderEnd, if_pos hmore]
    by_cases hlf : [10, 10].isPrefixOf (x :: a) = true
    · have hmore : [10, 10].isPrefixOf (x :: (a ++ b)) = true := by
        rw [ isPrefixOf_iff_prefix] at hlf ⊢
        exact hlf.trans ⟨b, rfl⟩
      have hother : ¬ [13, 10, 13, 10].isPrefixOf (x :: (a ++ b)) = true := by
        obtain ⟨t, ht⟩ := isPrefixOf_iff_prefix.mp hlf
        obtain ⟨rfl, -⟩ := List.cons.inj ht
        simp [List.isPrefixOf]
      rw [findHeaderEnd, if_neg hcrlf, if_pos hlf] at h
      rwa [cons_append, findHeaderEnd, if_neg hother, if_pos hmore]
    · rw [findHeaderEnd, if_neg hcrlf, if_neg hlf] at h
      obtain ⟨e', he', rfl⟩ := map_eq_some_iff.mp h
      -- line ends that the rest completes leave nothing to be found behind their first byte
      have hstill : ¬ [13, 10, 13, 10].isPrefixOf (x :: (a ++ b)) = true ∧
          ¬ [10, 10].isPrefixOf (x :: (a ++ b)) = true := by
        have hlength := lt_of_findHeaderEnd he'
        rcases a with _ | ⟨y, _ | ⟨z, _ | ⟨w, a⟩⟩⟩
        · exact absurd hlength (by simp)
        · exact absurd hlength (by simp)
        · simp only [findHeaderEnd, List.isPrefixOf] at he' hlf ⊢
          grind
        · simp only [List.isPrefixOf, cons_append] at hcrlf hlf ⊢
          exact ⟨hcrlf, hlf⟩
      rw [cons_append, findHeaderEnd, if_neg hstill.1, if_neg hstill.2, ih he']
      rfl

lemma separator_of_findHeaderEnd (h : findHeaderEnd a = some e) :
    e ≤ a.length ∧ ([13, 10].isPrefixOf (a.drop e) = true ∨ [10].isPrefixOf (a.drop e) = true) := by
  induction a generalizing e with
  | nil => cases h
  | cons x a ih =>
    rw [findHeaderEnd] at h
    split at h
    next hcrlf =>
      obtain ⟨t, ht⟩ := isPrefixOf_iff_prefix.mp hcrlf
      obtain rfl := some.inj h
      rw [← ht]
      exact ⟨by simp, .inl (by simp [List.isPrefixOf])⟩
    next =>
      split at h
      next hlf =>
        obtain ⟨t, ht⟩ := isPrefixOf_iff_prefix.mp hlf
        obtain rfl := some.inj h
        rw [← ht]
        exact ⟨by simp, .inr (by simp [List.isPrefixOf])⟩
      next =>
        obtain ⟨e', he', rfl⟩ := map_eq_some_iff.mp h
        obtain ⟨hle, hrest⟩ := ih he'
        exact ⟨Nat.succ_le_succ hle, hrest⟩

lemma separatorLength_append (h : [13, 10].isPrefixOf a = true ∨ [10].isPrefixOf a = true) :
    separatorLength (a ++ b) = separatorLength a ∧ separatorLength a ≤ a.length := by
  rcases h with h | h
  · obtain ⟨t, rfl⟩ := isPrefixOf_iff_prefix.mp h
    simp [separatorLength, List.isPrefixOf]
  · obtain ⟨t, rfl⟩ := isPrefixOf_iff_prefix.mp h
    simp [separatorLength, List.isPrefixOf]

namespace CFHTTPMessage

variable (msg : CFHTTPMessage)

def appendChunks (chunks : List (List UInt8)) : CFHTTPMessage :=
  chunks.foldl (fun msg chunk => (msg.appendBytes chunk).1) msg

lemma parseStartLine_body (first : Text) (x : List UInt8) :
    { msg with body := x }.parseStartLine first = { msg.parseStartLine first with body := x } := by
  unfold parseStartLine
  by_cases hkind : msg.isRequest = true
  · rw [if_pos hkind, if_pos hkind]
    rcases splitn ' ' 3 first with _ | ⟨m, _ | ⟨u, _ | ⟨v, parts⟩⟩⟩ <;> rfl
  · rw [if_neg hkind, if_neg hkind]
    rcases splitn ' ' 3 first with _ | ⟨v, _ | ⟨c, parts⟩⟩ <;> rfl

lemma parseHeadInto_body (text : Text) (x : List UInt8) :
    { msg with body := x }.parseHeadInto text = { msg.parseHeadInto text with body := x } := by
  unfold parseHeadInto
  cases lines text with
  | nil => rfl
  | cons first rest =>
    simp only
    rw [parseStartLine_body]

lemma splitHead_append (h : findHeaderEnd msg.body = some e) :
    { msg with body := msg.body ++ b }.splitHead e =
      { msg.splitHead e with body := (msg.splitHead e).body ++ b } := by
  obtain ⟨hle, hrest⟩ := separator_of_findHeaderEnd h
  obtain ⟨hsame, hcount⟩ := separatorLength_append (b := b) hrest
  have hhead : (msg.body ++ b).take e = msg.body.take e := take_append_of_le_length hle
  have hbody : ((msg.body ++ b).drop e).drop (separatorLength ((msg.body ++ b).drop e)) =
      (msg.body.drop e).drop (separatorLength (msg.body.drop e)) ++ b := by
    rw [drop_append_of_le_length hle, hsame, drop_append_of_le_length hcount]
  simp only [splitHead, parseHeadInto_body, hhead, hbody]

variable {msg}

lemma appendBytes_append (a b : List UInt8) :
    (msg.appendBytes (a ++ b)).1 = ((msg.appendBytes a).1.appendBytes b).1 := by
  by_cases ha : a = []
  · subst ha
    rfl
  by_cases hb : b = []
  · subst hb
    rw [append_nil]
    rfl
  have hab : a ++ b ≠ [] := append_ne_nil_of_left_ne_nil ha b
  by_cases hcomplete : msg.headerComplete = true
  · simp only [appendBytes, if_neg ha, if_neg hb, if_neg hab, if_pos hcomplete, append_assoc]
  · have hwhole : msg.body ++ (a ++ b) = (msg.body ++ a) ++ b := (append_assoc _ _ _).symm
    cases hfound : findHeaderEnd (msg.body ++ a) with
    | none =>
      simp only [appendBytes, if_neg ha, if_neg hb, if_neg hab, if_neg hcomplete, hfound, hwhole, Option.elim]
    | some e =>
      have hsplit : { msg with body := msg.body ++ a ++ b }.splitHead e = _ :=
        splitHead_append { msg with body := msg.body ++ a } hfound
      have hlater : (splitHead { msg with body := msg.body ++ a } e).headerComplete = true := rfl
      simp only [appendBytes, if_neg ha, if_neg hb, if_neg hab, if_neg hcomplete, hfound, hwhole,
        findHeaderEnd_append hfound, Option.elim, hsplit, if_pos hlater]

lemma appendChunks_eq (chunks : List (List UInt8)) :
    msg.appendChunks chunks = (msg.appendBytes chunks.flatten).1 := by
  induction chunks generalizing msg with
  | nil => rfl
  | cons chunk chunks ih =>
    rw [appendChunks, foldl_cons, ← appendChunks, ih, flatten_cons, appendBytes_append]

/-! ### Header fields -/

def setHeaderFieldValues (sets : List (Text × Option Text)) : CFHTTPMessage :=
  sets.foldl (fun msg set => msg.setHeaderFieldValue set.1 set.2) msg

def fieldsNamed (name : Text) : List (Text × Text) :=
  msg.headers.filter fun header => eqIgnoreAsciiCase header.1 name

lemma fieldsNamed_set (name other : Text) (value : Option Text) :
    (msg.setHeaderFieldValue name value).fieldsNamed other =
      if eqIgnoreAsciiCase name other then value.elim [] fun v => [(name, v)]
      else msg.fieldsNamed other := by
  rw [fieldsNamed, setHeaderFieldValue, fieldsNamed, List.filter_append, List.filter_filter]
  by_cases h : eqIgnoreAsciiCase name other = true
  · have hothers : msg.headers.filter (fun header => eqIgnoreAsciiCase header.1 other &&
        !eqIgnoreAsciiCase header.1 name) = [] := by
      rw [List.filter_eq_nil_iff]
      intro header _
      simp only [eqIgnoreAsciiCase, beq_iff_eq] at h ⊢
      simp [h]
    rw [if_pos h, hothers, List.nil_append]
    cases value <;> simp [h]
  · have hothers : msg.headers.filter (fun header => eqIgnoreAsciiCase header.1 other &&
        !eqIgnoreAsciiCase header.1 name) =
          msg.headers.filter fun header => eqIgnoreAsciiCase header.1 other := by
      apply List.filter_congr
      intro header _
      simp only [eqIgnoreAsciiCase, beq_iff_eq] at h ⊢
      cases hother : header.1.map Char.toLower == other.map Char.toLower with
      | false => rfl
      | true =>
        rw [eq_of_beq hother]
        simpa using Ne.symm h
    rw [if_neg h, hothers]
    cases value <;> simp [h]

lemma copyHeaderFieldValue_eq (name : Text) :
    msg.copyHeaderFieldValue name = (msg.fieldsNamed name).head?.map Prod.snd := by
  rw [copyHeaderFieldValue, fieldsNamed, List.head?_filter]

/-- The fields of a name after any run of sets: the one that was set last, letter case aside. -/
theorem setHeaderFieldValues_spec (sets : List (Text × Option Text)) (name : Text) :
    (msg.setHeaderFieldValues sets).fieldsNamed name =
        ((sets.reverse.find? fun set => eqIgnoreAsciiCase set.1 name).elim (msg.fieldsNamed name)
          fun set => set.2.elim [] fun v => [(set.1, v)]) ∧
      (msg.setHeaderFieldValues sets).copyHeaderFieldValue name =
        (sets.reverse.find? fun set => eqIgnoreAsciiCase set.1 name).elim
          (msg.copyHeaderFieldValue name) Prod.snd := by
  have hfields : (msg.setHeaderFieldValues sets).fieldsNamed name =
      ((sets.reverse.find? fun set => eqIgnoreAsciiCase set.1 name).elim (msg.fieldsNamed name)
        fun set => set.2.elim [] fun v => [(set.1, v)]) := by
    induction sets using List.reverseRec with
    | nil => rfl
    | append_singleton sets set ih =>
      rw [setHeaderFieldValues, List.foldl_concat, ← setHeaderFieldValues, fieldsNamed_set,
        List.reverse_append, List.reverse_singleton, List.singleton_append, List.find?_cons, ih]
      cases eqIgnoreAsciiCase set.1 name <;> rfl
  refine ⟨hfields, ?_⟩
  rw [copyHeaderFieldValue_eq, hfields, copyHeaderFieldValue_eq]
  cases sets.reverse.find? fun set => eqIgnoreAsciiCase set.1 name with
  | none => rfl
  | some set =>
    obtain ⟨n, value⟩ := set
    cases value <;> rfl

end CFHTTPMessage

end TouchHle.Http
