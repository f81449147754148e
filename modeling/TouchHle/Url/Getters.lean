import TouchHle.Url.Components

namespace TouchHle.Url

open Lib NSURLHostObject List Option Text

variable {u : HierarchicalUrl} {a : Authority}

lemma upTo_delimiters {s : Text} (hs : ∀ c ∈ s, c ≠ '/' ∧ c ≠ '?' ∧ c ≠ '#') (u : HierarchicalUrl) :
    upTo '#' (upTo '?' (upTo '/' (s ++ (u.path ++ u.tail)))) = s := by
  rw [upTo_append_of_notMem (notMem_of_forall hs (by simp)),
    upTo_append_of_notMem (notMem_of_forall hs (by simp)),
    upTo_append_of_notMem (notMem_of_forall hs (by simp))]
  obtain h | ⟨c, t, h, rfl | rfl | rfl⟩ := start_cases u <;> rw [h] <;> simp [upTo]

lemma colon_notMem_port {p : Text} (h : a.port = some p) : ':' ∉ p :=
  notMem_of_forall (P := fun c => c.isDigit = true) (a.port_ok p h) (by decide)

lemma rsplitOnce_hostPort_some {p : Text} (h : a.port = some p) :
    rsplitOnce ':' a.hostPort = some (a.host, p) := by
  unfold Authority.hostPort
  rw [h]
  exact rsplitOnce_append (colon_notMem_port h) _

lemma hostPort_none (h : a.port = none) : a.hostPort = a.host := by
  unfold Authority.hostPort
  rw [h]
  exact append_nil _

lemma rsplitOnce_literal (h : ':' ∈ a.host) :
    ∃ x y, rsplitOnce ':' a.host = some (x, y) ∧ a.host = x ++ ':' :: y ∧ ']' ∈ y := by
  obtain ⟨address, haddress⟩ := a.literal h
  have hrev : ':' ∈ a.host.reverse := mem_reverse.mpr h
  obtain ⟨y, x, hyx, hy⟩ := eq_append_cons_of_mem hrev
  have hhost : a.host = x.reverse ++ ':' :: y.reverse := by
    have hback := congrArg List.reverse hyx
    simpa using hback
  have hy' : ':' ∉ y.reverse := by simpa using hy
  refine ⟨x.reverse, y.reverse, ?_, hhost, ?_⟩
  · rw [hhost]
    exact rsplitOnce_append hy' _
  · rw [haddress] at hyx
    cases y with
    | nil => simp at hyx
    | cons c y =>
      simp only [reverse_append, reverse_cons, reverse_nil, nil_append,
        cons_append, List.cons.injEq] at hyx
      obtain ⟨rfl, -⟩ := hyx
      simp

lemma host_text (h : u.authority = some a) (hat : a.userinfo = none → '@' ∉ u.path ++ u.tail) :
    (otherURL u.text).host = u.host ↔ (':' ∈ a.host → a.port ≠ none) := by
  have hhost : (otherURL u.text).host = nonempty
      (((rsplitOnce ':' a.hostPort).map Prod.fst).getD a.hostPort) := by
    unfold host
    simp only [afterScheme_text h, afterUser_text hat]
    rw [upTo_delimiters fun c hc => (a.hostPort_ok c hc).2]
    cases rsplitOnce ':' a.hostPort <;> rfl
  have hright : u.host = nonempty a.host := by
    unfold HierarchicalUrl.host
    rw [h]
    rfl
  rw [hhost, hright]
  cases hport : a.port with
  | some p =>
    rw [rsplitOnce_hostPort_some hport]
    simp
  | none =>
    rw [hostPort_none hport]
    by_cases hcolon : ':' ∈ a.host
    · obtain ⟨x, y, hxy, heq, -⟩ := rsplitOnce_literal hcolon
      rw [hxy]
      refine iff_of_false (fun hsame => ?_) (by simp [hcolon])
      have hne : a.host ≠ [] := ne_nil_of_mem hcolon
      rw [nonempty_of_ne hne] at hsame
      change nonempty x = some a.host at hsame
      unfold nonempty at hsame
      split_ifs at hsame
      have hx : x.length = a.host.length := congrArg List.length (some.inj hsame)
      have hlength := congrArg List.length heq
      rw [length_append, length_cons] at hlength
      omega
    · rw [rsplitOnce_none hcolon]
      simp [hcolon]

lemma parseDigits_isDigit {limit n k : ℕ} {s : Text} (h : parseDigits limit n s = some k) :
    ∀ c ∈ s, c.isDigit = true := by
  induction s generalizing n with
  | nil => simp
  | cons c s ih =>
    unfold parseDigits at h
    split_ifs at h with hc
    intro d hd
    obtain rfl | hd := mem_cons.mp hd
    · exact hc.1
    · exact ih h d hd

lemma parseI32_chars {s : Text} {n : ℤ} (h : parseI32 s = some n) :
    ∀ c ∈ s, c.isDigit = true ∨ c = '+' ∨ c = '-' := by
  unfold parseI32 at h
  split at h
  · simp
  · split_ifs at h
    obtain ⟨k, hk, -⟩ := map_eq_some_iff.mp h
    intro c hc
    obtain rfl | hc := mem_cons.mp hc
    · simp
    · exact .inl (parseDigits_isDigit hk c hc)
  · split_ifs at h
    obtain ⟨k, hk, -⟩ := map_eq_some_iff.mp h
    intro c hc
    obtain rfl | hc := mem_cons.mp hc
    · simp
    · exact .inl (parseDigits_isDigit hk c hc)
  · obtain ⟨k, hk, -⟩ := map_eq_some_iff.mp h
    exact fun c hc => .inl (parseDigits_isDigit hk c hc)

lemma parseI32_eq_none {s : Text} {c : Char} (hc : c ∈ s)
    (h : ¬ (c.isDigit = true ∨ c = '+' ∨ c = '-')) : parseI32 s = none := by
  cases hs : parseI32 s with
  | none => rfl
  | some n => exact absurd (parseI32_chars hs c hc) h

lemma port_of_hostPort {t : Text} (ht : ':' ∉ t) (hstop : t = [] ∨ '?' ∈ t ∨ '#' ∈ t) :
    ((rsplitOnce ':' (a.hostPort ++ t)).bind fun p => parseI32 p.2) = if t = [] then a.port.bind parseI32 else none := by
  have hstopped : ∀ s, t ≠ [] → parseI32 (s ++ t) = none := by
    intro s hne
    obtain h | h := hstop.resolve_left hne
    · exact parseI32_eq_none (mem_append_right s h) (by decide)
    · exact parseI32_eq_none (mem_append_right s h) (by decide)
  cases hport : a.port with
  | some p =>
    have hcolon : ':' ∉ p ++ t := by
      rw [mem_append, not_or]
      exact ⟨colon_notMem_port hport, ht⟩
    have hsplit : rsplitOnce ':' (a.hostPort ++ t) = some (a.host, p ++ t) := by
      unfold Authority.hostPort
      rw [hport, led, append_assoc, cons_append]
      exact rsplitOnce_append hcolon _
    rw [hsplit]
    split_ifs with hnil
    · rw [hnil, append_nil]
      rfl
    · exact hstopped p hnil
  | none =>
    rw [hostPort_none hport, bind_none, ite_self]
    by_cases hcolon : ':' ∈ a.host
    · obtain ⟨x, y, hxy, heq, hy⟩ := rsplitOnce_literal hcolon
      have hycolon : ':' ∉ y ++ t := by
        rw [mem_append, not_or]
        refine ⟨fun hmem => ?_, ht⟩
        obtain ⟨b, c, rfl, hc⟩ : ∃ b c, y = b ++ ':' :: c ∧ ':' ∉ c := by
          obtain ⟨c, b, hcb, hc⟩ := eq_append_cons_of_mem (mem_reverse.mpr hmem)
          refine ⟨b.reverse, c.reverse, ?_, by simpa using hc⟩
          have hback := congrArg List.reverse hcb
          simpa using hback
        have hother := rsplitOnce_append hc (x ++ ':' :: b)
        rw [append_assoc, cons_append, ← heq, hxy] at hother
        have hlength := congrArg (fun o => (o.map fun p : Text × Text => p.2.length).getD 0) hother
        simp at hlength
        omega
      have hsplit : rsplitOnce ':' (a.host ++ t) = some (x, y ++ t) := by
        rw [heq, append_assoc, cons_append]
        exact rsplitOnce_append hycolon _
      rw [hsplit]
      exact parseI32_eq_none (mem_append_left t hy) (by decide)
    · rw [rsplitOnce_none (by rw [mem_append, not_or]; exact ⟨hcolon, ht⟩)]
      rfl

lemma tail_cases (u : HierarchicalUrl) : u.tail = [] ∨ '?' ∈ u.tail ∨ '#' ∈ u.tail := by
  unfold HierarchicalUrl.tail
  cases u.query with
  | some q => simp [led]
  | none =>
    cases u.fragment with
    | some f => simp [led]
    | none => simp [led]

lemma port_text (h : u.authority = some a) (hat : a.userinfo = none → '@' ∉ u.path ++ u.tail)
    (hslash : u.path = [] → '/' ∉ u.tail) :
    (otherURL u.text).port = (u.portDigits a).bind parseI32 := by
  have hport : (otherURL u.text).port =
      (rsplitOnce ':' (upTo '/' (a.hostPort ++ (u.path ++ u.tail)))).bind
        fun p => parseI32 p.2 := by
    unfold port
    simp only [afterScheme_text h, afterUser_text hat]
    cases rsplitOnce ':' (upTo '/' (a.hostPort ++ (u.path ++ u.tail))) <;> rfl
  have hno : '/' ∉ a.hostPort := notMem_of_forall a.hostPort_ok (by simp)
  rw [hport, upTo_append_of_notMem hno]
  unfold HierarchicalUrl.portDigits
  obtain ⟨hpath, -⟩ | ⟨p, hpath⟩ := u.path_abempty
  · rw [hpath, nil_append, upTo_self (hslash hpath)]
    by_cases hcolon : ':' ∈ u.tail
    · obtain ⟨c, b, hcb, hc⟩ := eq_append_cons_of_mem (mem_reverse.mpr hcolon)
      have htail : u.tail = b.reverse ++ ':' :: c.reverse := by
        have hback := congrArg List.reverse hcb
        simpa using hback
      have hc' : ':' ∉ c.reverse := by simpa using hc
      rw [if_pos ⟨rfl, ne_nil_of_mem hcolon⟩, htail, ← append_assoc,
        rsplitOnce_append hc', rsplitOnce_append hc']
      rfl
    · rw [port_of_hostPort hcolon (tail_cases u)]
      by_cases hnil : u.tail = []
      · rw [if_pos hnil, if_neg fun h => h.2 hnil]
      · rw [if_neg hnil, if_pos ⟨rfl, hnil⟩, rsplitOnce_none hcolon]
        rfl
  · have hstart : upTo '/' (u.path ++ u.tail) = [] := by
      rw [hpath]
      simp [upTo]
    rw [hstart, port_of_hostPort not_mem_nil (.inl rfl), if_pos rfl,
      if_neg fun h => by rw [hpath] at h; cases h.1]

lemma path_text (h : u.authority = some a) :
    (otherURL u.text).path = nonempty u.path ↔ (u.path = [] → '/' ∉ u.tail) := by
  have hno : '/' ∉ a.text := notMem_of_forall a.text_ok (by simp)
  have hpathText : (otherURL u.text).path = (splitOnce '/' (afterText u a)).bind
      fun p => nonempty (upTo '#' (upTo '?' ('/' :: p.2))) := by
    unfold path
    simp only [splitOnceStr_text h]
    cases splitOnce '/' (afterText u a) <;> rfl
  rw [hpathText]
  obtain ⟨hpath, -⟩ | ⟨p, hpath⟩ := u.path_abempty
  · rw [afterText, hpath, nil_append]
    by_cases hslash : '/' ∈ u.tail
    · refine iff_of_false (fun hsame => ?_) fun h => h rfl hslash
      obtain ⟨b, t, htail, hb⟩ := eq_append_cons_of_mem hslash
      have hsplit : splitOnce '/' (a.text ++ u.tail) = some (a.text ++ b, t) := by
        rw [htail, ← append_assoc]
        exact splitOnce_append (by rw [mem_append, not_or]; exact ⟨hno, hb⟩) t
      rw [hsplit] at hsame
      rw [bind_some, nonempty_eq_none.mpr rfl, nonempty_eq_none] at hsame
      simp [upTo] at hsame
    · rw [splitOnce_eq_none.mpr (by rw [mem_append, not_or]; exact ⟨hno, hslash⟩)]
      simp [hslash, nonempty]
  · have hsplit : splitOnce '/' (afterText u a) = some (a.text, p ++ u.tail) := by
      rw [afterText, hpath]
      exact splitOnce_append hno _
    have hmark : '?' ∉ u.path := notMem_of_forall u.path_ok (by simp)
    have hhash : '#' ∉ u.path := notMem_of_forall u.path_ok (by simp)
    have hend : upTo '#' (upTo '?' u.tail) = [] := by
      unfold HierarchicalUrl.tail
      cases u.query with
      | some q => simp [led, upTo]
      | none =>
        cases u.fragment with
        | some f => simp [led, upTo]
        | none => simp [led, upTo]
    have hcut : upTo '#' (upTo '?' ('/' :: (p ++ u.tail))) = u.path := by
      rw [← cons_append, ← hpath, upTo_append_of_notMem hmark, upTo_append_of_notMem hhash, hend,
        append_nil]
    rw [hsplit, bind_some, hcut]
    exact iff_of_true rfl fun hnil => by rw [hpath] at hnil; cases hnil

def HierarchicalUrl.front (u : HierarchicalUrl) : Text :=
  u.scheme ++ ':' :: (u.authorityText ++ u.path)

lemma text_front (u : HierarchicalUrl) : u.text = u.front ++ (led '?' u.query ++ led '#' u.fragment) := by
  unfold HierarchicalUrl.text HierarchicalUrl.front HierarchicalUrl.tail
  simp

lemma front_ok (u : HierarchicalUrl) : ∀ c ∈ u.front, c ≠ '?' ∧ c ≠ '#' := by
  intro c hc
  unfold HierarchicalUrl.front HierarchicalUrl.authorityText at hc
  simp only [mem_append, mem_cons] at hc
  obtain hc | rfl | hc | hc := hc
  · exact (u.scheme_ok c hc).2.2
  · decide
  · cases hauthority : u.authority with
    | none =>
      rw [hauthority] at hc
      exact absurd hc not_mem_nil
    | some a =>
      rw [hauthority] at hc
      simp only [mem_cons] at hc
      obtain rfl | rfl | hc := hc
      · decide
      · decide
      · exact (a.text_ok c hc).2
  · exact u.path_ok c hc

lemma query_text (u : HierarchicalUrl) : (otherURL u.text).query = u.query.bind nonempty ↔
    (u.query = none → ∀ f ∈ u.fragment, ∀ x y, splitOnce '?' f = some (x, y) → y = []) := by
  have hmark : '?' ∉ u.front := notMem_of_forall (front_ok u) (by simp)
  have hquery : (otherURL u.text).query = (splitOnce '?' u.text).bind
      fun p => nonempty (upTo '#' p.2) := by
    unfold query absoluteString
    cases splitOnce '?' u.text <;> rfl
  rw [hquery, text_front]
  cases hq : u.query with
  | some q =>
    have hhash := u.query_ok q hq
    have hcut : upTo '#' (q ++ led '#' u.fragment) = q := by
      rw [upTo_append_of_notMem hhash]
      cases u.fragment <;> simp [led, upTo]
    rw [led, cons_append, splitOnce_append hmark]
    rw [bind_some, bind_some, hcut]
    exact iff_of_true rfl fun hnone => by cases hnone
  | none =>
    rw [led, nil_append, bind_none]
    cases hf : u.fragment with
    | none =>
      rw [led, append_nil, splitOnce_eq_none.mpr hmark]
      simp
    | some f =>
      have hhash := u.fragment_ok f hf
      rw [led]
      cases hsplit : splitOnce '?' f with
      | none =>
        have hno : '?' ∉ u.front ++ '#' :: f := by
          rw [mem_append, mem_cons, not_or, not_or]
          exact ⟨hmark, by decide, splitOnce_eq_none.mp hsplit⟩
        rw [splitOnce_eq_none.mpr hno]
        simp [hsplit]
      | some p =>
        obtain ⟨x, y⟩ := p
        obtain ⟨rfl, hx⟩ := splitOnce_some hsplit
        have hall : splitOnce '?' (u.front ++ '#' :: (x ++ '?' :: y)) =
            some (u.front ++ '#' :: x, y) := by
          rw [← cons_append, ← append_assoc]
          apply splitOnce_append
          rw [mem_append, mem_cons, not_or, not_or]
          exact ⟨hmark, by decide, hx⟩
        have hy : '#' ∉ y := by
          rw [mem_append, mem_cons, not_or, not_or] at hhash
          exact hhash.2.2
        rw [hall, bind_some, upTo_self hy, nonempty_eq_none]
        constructor
        · intro hnil _ f' hf' x' y' hsplit'
          obtain rfl := some.inj hf'
          rw [hsplit, some.injEq, Prod.mk.injEq] at hsplit'
          rw [← hsplit'.2, hnil]
        · exact fun h => h rfl _ rfl x y hsplit

lemma fragment_text (u : HierarchicalUrl) :
    (otherURL u.text).fragment = u.fragment.bind nonempty := by
  have hhash : '#' ∉ u.front ++ led '?' u.query := by
    rw [mem_append, not_or]
    refine ⟨notMem_of_forall (front_ok u) (by simp), notMem_led (by decide) u.query_ok⟩
  have hfragment : (otherURL u.text).fragment = (splitOnce '#' u.text).bind fun p => nonempty p.2 := by
    unfold fragment absoluteString
    cases splitOnce '#' u.text <;> rfl
  rw [hfragment, text_front, ← append_assoc]
  cases u.fragment with
  | none =>
    rw [led, append_nil, splitOnce_eq_none.mpr hhash]
    rfl
  | some f =>
    rw [led, splitOnce_append hhash]
    rfl

variable {u : HierarchicalUrl} {a : Authority} {expandTilde : Text → Text}

lemma isPrefixOf_scheme {scheme : Text} (rest : Text) (h : ':' ∉ scheme) :
    "file:".toList.isPrefixOf (scheme ++ ':' :: rest) = true ↔ scheme = "file".toList := by
  rw [ isPrefixOf_iff_prefix]
  constructor
  · rintro ⟨t, ht⟩
    have hfile : splitOnce ':' ("file:".toList ++ t) = some ("file".toList, t) :=
      splitOnce_append (show ':' ∉ "file".toList by decide) t
    rw [ht, splitOnce_append h, some.injEq, Prod.mk.injEq] at hfile
    exact hfile.1
  · rintro rfl
    exact ⟨rest, rfl⟩

lemma initWithString_text (h : u.scheme ≠ "file".toList) :
    initWithString expandTilde u.text = otherURL u.text := by
  have hprefix := (isPrefixOf_scheme (u.authorityText ++ u.path ++ u.tail)
    colon_notMem_scheme).not.mpr h
  exact if_neg hprefix

lemma not_right_of_file (h : u.scheme = "file".toList) :
    ¬ ComponentsRight (initWithString expandTilde u.text) u := by
  intro hright
  have hprefix := (isPrefixOf_scheme (u.authorityText ++ u.path ++ u.tail)
    colon_notMem_scheme).mpr h
  obtain ⟨s, hs⟩ : ∃ s, initWithString expandTilde u.text = fileURL s :=
    ⟨_, (if_pos hprefix).trans rfl⟩
  rw [hs] at hright
  have hpath : some s = nonempty u.path := hright.path
  have hscheme : (splitOnceStr "://".toList s).map Prod.fst = some "file".toList :=
    hright.scheme.trans (congrArg some h)
  obtain ⟨⟨scheme, rest⟩, hsplit, hfst⟩ := map_eq_some_iff.mp hscheme
  obtain rfl : scheme = "file".toList := hfst
  have htext := splitOnceStr_some (by decide) hsplit
  unfold nonempty at hpath
  split_ifs at hpath with hnil
  obtain rfl := some.inj hpath
  obtain ⟨hnil', -⟩ | ⟨p, hp⟩ := u.path_abempty
  · exact hnil hnil'
  · rw [hp] at htext
    obtain ⟨hchar, -⟩ := List.cons.inj htext
    revert hchar
    decide

lemma not_right_of_noAuthority (h : u.authority = none) :
    ¬ ComponentsRight (initWithString expandTilde u.text) u := by
  intro hright
  by_cases hfile : u.scheme = "file".toList
  · exact not_right_of_file hfile hright
  rw [initWithString_text hfile] at hright
  have hscheme : (splitOnceStr "://".toList u.text).map Prod.fst = some u.scheme :=
    hright.scheme
  obtain ⟨⟨scheme, rest⟩, hsplit, hfst⟩ := map_eq_some_iff.mp hscheme
  obtain rfl : scheme = u.scheme := hfst
  have htext := splitOnceStr_some (by decide) hsplit
  unfold HierarchicalUrl.text HierarchicalUrl.authorityText at htext
  rw [h, append_assoc] at htext
  have htext' : u.scheme ++ (':' :: (u.path ++ u.tail)) = u.scheme ++ (':' :: '/' :: '/' :: rest) := by
    simpa using htext
  obtain ⟨-, hrest⟩ := List.cons.inj (append_cancel_left htext')
  obtain ⟨-, hsome⟩ | ⟨p, hp⟩ := u.path_abempty
  · rw [h] at hsome
    cases hsome
  · rw [hp, cons_append] at hrest
    obtain ⟨-, hrest⟩ := List.cons.inj hrest
    cases p with
    | nil =>
      obtain htail | ⟨c, t, htail, hc⟩ : u.tail = [] ∨ ∃ c t, u.tail = c :: t ∧ (c = '?' ∨ c = '#') := by
        unfold HierarchicalUrl.tail
        cases u.query with
        | some q => exact .inr ⟨'?', _, rfl, .inl rfl⟩
        | none =>
          cases u.fragment with
          | some f => exact .inr ⟨'#', _, rfl, .inr rfl⟩
          | none => exact .inl rfl
      · rw [htail] at hrest
        cases hrest
      · rw [htail, nil_append] at hrest
        obtain ⟨rfl, -⟩ := List.cons.inj hrest
        simp at hc
    | cons x p =>
      obtain ⟨rfl, -⟩ := List.cons.inj hrest
      exact u.path_absolute h p hp

lemma upTo_splitOnce (i : Text) :
    i = upTo ':' i ++ led ':' ((splitOnce ':' i).map Prod.snd) := by
  cases h : splitOnce ':' i with
  | none =>
    rw [upTo_self (splitOnce_eq_none.mp h)]
    simp [led]
  | some p =>
    obtain ⟨rfl, hx⟩ := splitOnce_some h
    rw [upTo_append hx]
    rfl

lemma bind_nonempty {o : Option Text} (h : o ≠ some []) : o.bind nonempty = o := by
  cases o with
  | none => rfl
  | some s => exact nonempty_of_ne fun hs => h (congrArg some hs)

lemma putTogether_eq {url : NSURLHostObject} (h : u.authority = some a)
    (hscheme : url.scheme = some u.scheme) (huser : url.user = u.user)
    (hpassword : url.password = u.password) (hhost : url.host = u.host)
    (hport : url.port.map decimal = u.port) (hpath : url.path = nonempty u.path)
    (hquery : url.query = u.query.bind nonempty)
    (hfragment : url.fragment = u.fragment.bind nonempty) (hempty : u.NoneEmpty) :
    putTogether url = u.text := by
  have hhost' : u.host = some a.host := by
    unfold HierarchicalUrl.host
    rw [h]
    exact nonempty_of_ne (hempty.host a h)
  have hport' : u.port = a.port := by
    unfold HierarchicalUrl.port
    rw [h]
    exact bind_nonempty fun hnil => hempty.port a h hnil
  have hpath' : (nonempty u.path).getD [] = u.path := by
    unfold nonempty
    split_ifs with hnil
    · exact hnil.symm
    · rfl
  have hinfo : userinfoText u.user u.password = (a.userinfo.map (· ++ "@".toList)).getD [] := by
    unfold HierarchicalUrl.user HierarchicalUrl.password userinfoText
    rw [h, bind_some]
    cases hi : a.userinfo with
    | none => rfl
    | some i =>
      have huserinfo := hempty.user a h i hi
      have hpass : ((splitOnce ':' i).bind fun p => nonempty p.2) =
          (splitOnce ':' i).map Prod.snd := by
        cases hsplit : splitOnce ':' i with
        | none => rfl
        | some p => exact nonempty_of_ne (hempty.password a h i hi p.1 p.2 hsplit)
      rw [bind_some, bind_some, nonempty_of_ne huserinfo, hpass]
      change upTo ':' i ++ led ':' ((splitOnce ':' i).map Prod.snd) ++ _ = i ++ _
      rw [← upTo_splitOnce]
  unfold putTogether
  rw [hscheme, huser, hpassword, hinfo, hhost, hhost', hport, hport', hpath, hpath', hquery,
    hfragment, bind_nonempty hempty.query, bind_nonempty hempty.fragment, text_eq h]
  unfold afterText Authority.text Authority.hostPort HierarchicalUrl.tail
  cases a.userinfo with
  | none => simp
  | some i => simp

theorem componentsRight_iff (expandTilde : Text → Text) (u : HierarchicalUrl) :
    ComponentsRight (initWithString expandTilde u.text) u ↔ ∃ a, u.authority = some a ∧ Plain u a := by
  by_cases hfile : u.scheme = "file".toList
  · exact iff_of_false (not_right_of_file hfile) fun h => by
      obtain ⟨a, -, hplain⟩ := h
      exact hplain.notFile hfile
  cases h : u.authority with
  | none =>
    exact iff_of_false (not_right_of_noAuthority h) fun h => by
      obtain ⟨a, hnone, -⟩ := h
      cases hnone
  | some a =>
    rw [initWithString_text hfile]
    have hport' : u.port = a.port.bind nonempty := by
      unfold HierarchicalUrl.port
      rw [h]
      rfl
    constructor
    · intro hright
      have hat := at_of_user h hright.user hright.password
      have hslash := (path_text h).mp hright.path
      refine ⟨a, rfl, ⟨hfile, hat, (host_text h hat).mp hright.host, hslash,
        (query_text u).mp hright.query, ?_⟩⟩
      rw [← port_text h hat hslash, hright.port, hport']
    · rintro ⟨a', ha', hplain⟩
      obtain rfl := some.inj ha'
      have hscheme : (otherURL u.text).scheme = some u.scheme := by
        unfold scheme absoluteString
        simp only [splitOnceStr_text h, map_some]
      have huser := user_text h hplain.atSign
      have hpassword := password_text h hplain.atSign
      have hhost := (host_text h hplain.atSign).mpr hplain.literal
      have hport : (otherURL u.text).port.map decimal = u.port := by
        rw [port_text h hplain.atSign hplain.slash, hplain.port, hport']
      have hpath := (path_text h).mpr hplain.slash
      have hquery := (query_text u).mpr hplain.mark
      exact ⟨hscheme, huser, hpassword, hhost, hport, hpath, hquery, fragment_text u,
        putTogether_eq h hscheme huser hpassword hhost hport hpath hquery (fragment_text u)⟩

end TouchHle.Url
