import TouchHle.Lib.Text

/-! URL objects: what `initWithString:` makes of a string, the component getters, and
`URLWithString:relativeToURL:`. -/

namespace TouchHle.Url

open Lib List Option Text

inductive NSURLHostObject where
  | fileURL (nsString : Text)
  | otherURL (nsString : Text)
deriving DecidableEq

namespace NSURLHostObject

def absoluteString : NSURLHostObject → Text
  | fileURL s => s
  | otherURL s => s

def afterScheme (url : NSURLHostObject) : Option Text :=
  (Text.splitOnceStr "://".toList url.absoluteString).map Prod.snd

def afterUser (afterScheme : Text) : Text :=
  match Text.splitOnce '@' afterScheme with
  | some (_, rest) => rest
  | none => afterScheme

def nonempty (s : Text) : Option Text := if s = [] then none else some s

def scheme (url : NSURLHostObject) : Option Text :=
  (Text.splitOnceStr "://".toList url.absoluteString).map Prod.fst

def host (url : NSURLHostObject) : Option Text :=
  match url.afterScheme with
  | none => none
  | some afterScheme =>
    let hostAndPort := Text.upTo '#' (Text.upTo '?' (Text.upTo '/' (afterUser afterScheme)))
    let host := match Text.rsplitOnce ':' hostAndPort with
      | some (host, _) => host
      | none => hostAndPort
    nonempty host

def parseDigits (limit : ℕ) : ℕ → Text → Option ℕ
  | n, [] => some n
  | n, c :: s =>
    if c.isDigit ∧ 10 * n + (c.toNat - '0'.toNat) ≤ limit then
      parseDigits limit (10 * n + (c.toNat - '0'.toNat)) s
    else none

def parseI32 : Text → Option ℤ
  | [] => none
  | '+' :: s => if s = [] then none else (parseDigits (2 ^ 31 - 1) 0 s).map Int.ofNat
  | '-' :: s => if s = [] then none else (parseDigits (2 ^ 31) 0 s).map fun n => - Int.ofNat n
  | c :: s => (parseDigits (2 ^ 31 - 1) 0 (c :: s)).map Int.ofNat

def port (url : NSURLHostObject) : Option ℤ :=
  match url.afterScheme with
  | none => none
  | some afterScheme =>
    match Text.rsplitOnce ':' (Text.upTo '/' (afterUser afterScheme)) with
    | some (_, port) => parseI32 port
    | none => none

def user (url : NSURLHostObject) : Option Text :=
  match url.afterScheme with
  | none => none
  | some afterScheme =>
    match Text.splitOnce '@' afterScheme with
    | some (userinfo, _) => nonempty (Text.upTo ':' userinfo)
    | none => none

def password (url : NSURLHostObject) : Option Text :=
  match url.afterScheme with
  | none => none
  | some afterScheme =>
    match Text.splitOnce '@' afterScheme with
    | some (userinfo, _) =>
      match Text.splitOnce ':' userinfo with
      | some (_, pass) => nonempty pass
      | none => none
    | none => none

def path : NSURLHostObject → Option Text
  | fileURL s => some s
  | otherURL s =>
    match Text.splitOnceStr "://".toList s with
    | none => some s
    | some (_, afterScheme) =>
      match Text.splitOnce '/' afterScheme with
      | none => none
      | some (_, rest) => nonempty (Text.upTo '#' (Text.upTo '?' ('/' :: rest)))

def query (url : NSURLHostObject) : Option Text :=
  match Text.splitOnce '?' url.absoluteString with
  | some (_, afterQ) => nonempty (Text.upTo '#' afterQ)
  | none => none

def fragment (url : NSURLHostObject) : Option Text :=
  match Text.splitOnce '#' url.absoluteString with
  | some (_, fragment) => nonempty fragment
  | none => none

end NSURLHostObject

section

-- `stringByExpandingTildeInPath`, which depends on the home directory
variable (expandTilde : Text → Text)

def stripped (s : Text) : Text :=
  Text.removeFirst "file:".toList
    (Text.removeFirst "file://".toList (Text.removeFirst "file://localhost".toList s))

def initFileURLWithPath (path : Text) : NSURLHostObject :=
  .fileURL (expandTilde (if "file:".toList.isPrefixOf path then stripped path else path))

def initWithString (url : Text) : NSURLHostObject :=
  if "file:".toList.isPrefixOf url then initFileURLWithPath expandTilde (stripped url)
  else .otherURL url

def URLWithString (url : Option Text) : Option NSURLHostObject := url.map (initWithString expandTilde)

def URLWithStringRelativeToURL (url : Option Text) (base : Option NSURLHostObject) :
    Option NSURLHostObject :=
  match url with
  | none => none
  | some url =>
    if (Text.splitOnceStr "://".toList url).isSome ∨ url.head? = some '/' then
      URLWithString expandTilde (some url)
    else
      match base with
      | none => URLWithString expandTilde (some url)
      | some base =>
        let baseStr := base.absoluteString
        let combined :=
          if baseStr.getLast? = some '/' then baseStr ++ url else baseStr ++ '/' :: url
        some (initWithString expandTilde combined)

end

structure Authority where
  userinfo : Option Text
  host : Text
  port : Option Text
  userinfo_ok : ∀ i ∈ userinfo, ∀ c ∈ i, c ≠ '@' ∧ c ≠ '/' ∧ c ≠ '?' ∧ c ≠ '#'
  host_ok : ∀ c ∈ host, c ≠ '@' ∧ c ≠ '/' ∧ c ≠ '?' ∧ c ≠ '#'
  /-- A host with a colon is an IP literal. -/
  literal : ':' ∈ host → ∃ address, host = '[' :: address ++ [']']
  port_ok : ∀ p ∈ port, ∀ c ∈ p, c.isDigit = true

structure HierarchicalUrl where
  scheme : Text
  authority : Option Authority
  path : Text
  query : Option Text
  fragment : Option Text
  scheme_ok : ∀ c ∈ scheme, c ≠ ':' ∧ c ≠ '/' ∧ c ≠ '?' ∧ c ≠ '#'
  path_ok : ∀ c ∈ path, c ≠ '?' ∧ c ≠ '#'
  query_ok : ∀ q ∈ query, '#' ∉ q
  fragment_ok : ∀ f ∈ fragment, '#' ∉ f
  path_abempty : path = [] ∧ authority.isSome ∨ ∃ p, path = '/' :: p
  path_absolute : authority = none → ∀ p, path ≠ '/' :: '/' :: p

def led (delimiter : Char) : Option Text → Text
  | none => []
  | some s => delimiter :: s

def Authority.hostPort (a : Authority) : Text := a.host ++ led ':' a.port

def Authority.text (a : Authority) : Text :=
  match a.userinfo with
  | none => a.hostPort
  | some i => i ++ '@' :: a.hostPort

namespace HierarchicalUrl

open NSURLHostObject (nonempty)

def tail (u : HierarchicalUrl) : Text := led '?' u.query ++ led '#' u.fragment

def authorityText (u : HierarchicalUrl) : Text :=
  match u.authority with
  | none => []
  | some a => '/' :: '/' :: a.text

def text (u : HierarchicalUrl) : Text := u.scheme ++ ':' :: (u.authorityText ++ u.path ++ u.tail)

def user (u : HierarchicalUrl) : Option Text :=
  (u.authority.bind Authority.userinfo).bind fun i => nonempty (Text.upTo ':' i)

def password (u : HierarchicalUrl) : Option Text :=
  (u.authority.bind Authority.userinfo).bind fun i => (Text.splitOnce ':' i).bind fun p => nonempty p.2

def host (u : HierarchicalUrl) : Option Text := u.authority.bind fun a => nonempty a.host

def port (u : HierarchicalUrl) : Option Text := (u.authority.bind Authority.port).bind nonempty

structure NoneEmpty (u : HierarchicalUrl) : Prop where
  user : ∀ a ∈ u.authority, ∀ i ∈ a.userinfo, Text.upTo ':' i ≠ []
  password : ∀ a ∈ u.authority, ∀ i ∈ a.userinfo, ∀ x y, Text.splitOnce ':' i = some (x, y) → y ≠ []
  host : ∀ a ∈ u.authority, a.host ≠ []
  port : ∀ a ∈ u.authority, a.port ≠ some []
  query : u.query ≠ some []
  fragment : u.fragment ≠ some []

end HierarchicalUrl

def decimal (n : ℤ) : Text := (toString n).toList

def userinfoText (user password : Option Text) : Text :=
  match user with
  | none => []
  | some user => user ++ led ':' password ++ "@".toList

def putTogether (url : NSURLHostObject) : Text :=
  url.scheme.getD [] ++ "://".toList ++ userinfoText url.user url.password ++
    url.host.getD [] ++ led ':' (url.port.map decimal) ++ url.path.getD [] ++ led '?' url.query ++
    led '#' url.fragment

structure ComponentsRight (url : NSURLHostObject) (u : HierarchicalUrl) : Prop where
  scheme : url.scheme = some u.scheme
  user : url.user = u.user
  password : url.password = u.password
  host : url.host = u.host
  port : url.port.map decimal = u.port
  path : url.path = NSURLHostObject.nonempty u.path
  query : url.query = u.query.bind NSURLHostObject.nonempty
  fragment : url.fragment = u.fragment.bind NSURLHostObject.nonempty
  together : u.NoneEmpty → putTogether url = u.text

def HierarchicalUrl.portDigits (u : HierarchicalUrl) (a : Authority) : Option Text :=
  if u.path = [] ∧ u.tail ≠ [] then (Text.rsplitOnce ':' u.tail).map Prod.snd else a.port

structure Plain (u : HierarchicalUrl) (a : Authority) : Prop where
  notFile : u.scheme ≠ "file".toList
  atSign : a.userinfo = none → '@' ∉ u.path ++ u.tail
  literal : ':' ∈ a.host → a.port ≠ none
  slash : u.path = [] → '/' ∉ u.tail
  mark : u.query = none → ∀ f ∈ u.fragment, ∀ x y, Text.splitOnce '?' f = some (x, y) → y = []
  port : ((u.portDigits a).bind NSURLHostObject.parseI32).map decimal =
    a.port.bind NSURLHostObject.nonempty

open NSURLHostObject

lemma nonempty_eq_none {s : Text} : nonempty s = none ↔ s = [] := by
  unfold nonempty
  split_ifs <;> simp_all

lemma nonempty_of_ne {s : Text} (h : s ≠ []) : nonempty s = some s := if_neg h

lemma upTo_append_of_notMem {c : Char} {s : Text} (h : c ∉ s) (t : Text) :
    upTo c (s ++ t) = s ++ upTo c t := by
  unfold upTo
  rw [takeWhile_append_of_pos]
  intro x hx
  have hne : x ≠ c := fun hxc => h (hxc ▸ hx)
  simpa using hne

lemma notMem_of_forall {c : Char} {s : Text} {P : Char → Prop} (h : ∀ x ∈ s, P x) (hc : ¬ P c) :
    c ∉ s := fun hmem => hc (h c hmem)

variable {u : HierarchicalUrl} {a : Authority}

lemma notMem_led {c d : Char} {o : Option Text} (hd : c ≠ d) (h : ∀ s ∈ o, c ∉ s) : c ∉ led d o := by
  cases o with
  | none => exact not_mem_nil
  | some s =>
    rw [led, mem_cons, not_or]
    exact ⟨hd, h s rfl⟩

lemma start_cases (u : HierarchicalUrl) : u.path ++ u.tail = [] ∨
    ∃ c t, u.path ++ u.tail = c :: t ∧ (c = '/' ∨ c = '?' ∨ c = '#') := by
  obtain ⟨hpath, -⟩ | ⟨p, hpath⟩ := u.path_abempty
  · unfold HierarchicalUrl.tail
    rw [hpath]
    cases hq : u.query with
    | some q => exact .inr ⟨'?', q ++ led '#' u.fragment, by simp [led], .inr (.inl rfl)⟩
    | none =>
      cases hf : u.fragment with
      | some f => exact .inr ⟨'#', f, by simp [led], .inr (.inr rfl)⟩
      | none => exact .inl (by simp [led])
  · exact .inr ⟨'/', p ++ u.tail, by rw [hpath]; rfl, .inl rfl⟩

lemma Authority.hostPort_ok (a : Authority) :
    ∀ c ∈ a.hostPort, c ≠ '@' ∧ c ≠ '/' ∧ c ≠ '?' ∧ c ≠ '#' := by
  intro c hc
  unfold Authority.hostPort at hc
  obtain hc | hc := mem_append.mp hc
  · exact a.host_ok c hc
  · cases hport : a.port with
    | none =>
      rw [hport] at hc
      exact absurd hc not_mem_nil
    | some p =>
      rw [hport, led, mem_cons] at hc
      obtain rfl | hc := hc
      · decide
      · have hdigit := a.port_ok p hport c hc
        refine ⟨?_, ?_, ?_, ?_⟩ <;> (rintro rfl; revert hdigit; decide)

lemma Authority.text_ok (a : Authority) : ∀ c ∈ a.text, c ≠ '/' ∧ c ≠ '?' ∧ c ≠ '#' := by
  intro c hc
  unfold Authority.text at hc
  cases hinfo : a.userinfo with
  | none =>
    rw [hinfo] at hc
    exact (a.hostPort_ok c hc).2
  | some i =>
    rw [hinfo] at hc
    simp only [mem_append, mem_cons] at hc
    obtain hc | rfl | hc := hc
    · exact (a.userinfo_ok i hinfo c hc).2
    · decide
    · exact (a.hostPort_ok c hc).2

lemma Authority.at_notMem (h : a.userinfo = none) : '@' ∉ a.text := by
  unfold Authority.text
  rw [h]
  exact notMem_of_forall a.hostPort_ok (by simp)

section

variable (u a)

def afterText : Text := a.text ++ (u.path ++ u.tail)

variable {u a}

lemma text_eq (h : u.authority = some a) :
    u.text = u.scheme ++ "://".toList ++ afterText u a := by
  unfold HierarchicalUrl.text HierarchicalUrl.authorityText afterText
  rw [h]
  simp

lemma colon_notMem_scheme : ':' ∉ u.scheme := notMem_of_forall u.scheme_ok (by simp)

lemma splitOnceStr_text (h : u.authority = some a) :
    splitOnceStr "://".toList u.text = some (u.scheme, afterText u a) := by
  rw [text_eq h]
  exact splitOnceStr_append colon_notMem_scheme "//".toList _

lemma afterScheme_text (h : u.authority = some a) :
    (otherURL u.text).afterScheme = some (afterText u a) := by
  unfold afterScheme absoluteString
  simp only [splitOnceStr_text h, map_some]

lemma splitOnce_at (hat : a.userinfo = none → '@' ∉ u.path ++ u.tail) :
    splitOnce '@' (afterText u a) =
      a.userinfo.map fun i => (i, a.hostPort ++ (u.path ++ u.tail)) := by
  cases hinfo : a.userinfo with
  | none =>
    rw [map_none, splitOnce_eq_none]
    unfold afterText
    rw [mem_append, not_or]
    exact ⟨Authority.at_notMem hinfo, hat hinfo⟩
  | some i =>
    have hi : '@' ∉ i := notMem_of_forall (a.userinfo_ok i hinfo) (by simp)
    unfold afterText Authority.text
    rw [hinfo]
    simp only [append_assoc, cons_append]
    exact splitOnce_append hi _

lemma afterUser_text (hat : a.userinfo = none → '@' ∉ u.path ++ u.tail) :
    afterUser (afterText u a) = a.hostPort ++ (u.path ++ u.tail) := by
  unfold afterUser
  rw [splitOnce_at hat]
  cases hinfo : a.userinfo with
  | none =>
    unfold afterText Authority.text
    rw [hinfo]
    rfl
  | some i => rfl

lemma user_text (h : u.authority = some a) (hat : a.userinfo = none → '@' ∉ u.path ++ u.tail) :
    (otherURL u.text).user = u.user := by
  unfold user HierarchicalUrl.user
  simp only [afterScheme_text h, splitOnce_at hat, h, bind_some]
  cases a.userinfo <;> rfl

lemma password_text (h : u.authority = some a) (hat : a.userinfo = none → '@' ∉ u.path ++ u.tail) :
    (otherURL u.text).password = u.password := by
  unfold password HierarchicalUrl.password
  simp only [afterScheme_text h, splitOnce_at hat, h, bind_some]
  cases a.userinfo with
  | none => rfl
  | some i =>
    simp only [map_some, bind_some]
    cases splitOnce ':' i <;> rfl

lemma at_of_user (h : u.authority = some a) (huser : (otherURL u.text).user = u.user)
    (hpassword : (otherURL u.text).password = u.password) (hinfo : a.userinfo = none) :
    '@' ∉ u.path ++ u.tail := by
  intro hat
  have hmem : '@' ∈ afterText u a := mem_append_right _ hat
  obtain ⟨p, hp⟩ : ∃ p, splitOnce '@' (afterText u a) = some p := by
    rw [← isSome_iff_exists, isSome_iff_ne_none]
    exact fun hnone => splitOnce_eq_none.mp hnone hmem
  obtain ⟨before, after⟩ := p
  have hsplit := splitOnce_some hp
  have huser : upTo ':' before = [] := by
    unfold user HierarchicalUrl.user at huser
    simpa [afterScheme_text h, hp, h, hinfo, nonempty_eq_none] using huser
  obtain ⟨c, t, hstart, hc⟩ := (start_cases u).resolve_left (ne_nil_of_mem hat)
  -- the text of the authority and one more delimiter stand before the `@`
  have hbefore : ∃ t', before = a.text ++ c :: t' := by
    have heq := hsplit.1
    unfold afterText at heq
    rw [hstart] at heq
    obtain ⟨m, hm, hrest⟩ | ⟨m, hm, hrest⟩ := append_eq_append_iff.mp heq
    · cases m with
      | nil =>
        rw [nil_append] at hrest
        obtain ⟨rfl, -⟩ := List.cons.inj hrest
        simp at hc
      | cons x m =>
        obtain ⟨rfl, -⟩ := List.cons.inj hrest
        exact ⟨m, hm⟩
    · cases m with
      | nil =>
        rw [nil_append] at hrest
        obtain ⟨rfl, -⟩ := List.cons.inj hrest
        simp at hc
      | cons x m =>
        obtain ⟨rfl, -⟩ := List.cons.inj hrest
        exact absurd (hm ▸ by simp) (Authority.at_notMem hinfo)
  obtain ⟨t', rfl⟩ := hbefore
  have hcolon : c ≠ ':' := by
    obtain rfl | rfl | rfl := hc <;> decide
  cases htext : a.text with
  | nil =>
    rw [htext, nil_append, upTo, takeWhile_cons, if_pos (by simpa using hcolon)] at huser
    cases huser
  | cons x s =>
    obtain rfl | hx := eq_or_ne x ':'
    · unfold password HierarchicalUrl.password at hpassword
      have hpass : splitOnce ':' (a.text ++ c :: t') = some ([], s ++ c :: t') := by
        rw [htext]
        exact splitOnce_append not_mem_nil _
      simp only [afterScheme_text h, hp, h, hinfo, hpass, bind_some, bind_none] at hpassword
      rw [nonempty_eq_none] at hpassword
      simp at hpassword
    · rw [htext, cons_append, upTo, takeWhile_cons, if_pos (by simpa using hx)] at huser
      cases huser

end

end TouchHle.Url
