import M6.Auth.Handlers
import M6.Core.Head

/-!
# Where a login sends the browser

After a login the browser is redirected to the form's `next`, and after a refresh to
the request's `Referer`, if `isSameOriginPath` accepts them. The check looks at the
first two characters; the target is then written into the head as it is, and the
browser removes tabs and line breaks before it resolves it.

`StaysOnSite` is what the redirects are for: the fields on the wire are the ones
that were set, and the target has the site's own origin. `redirects_stay_iff` says
for which requests that holds.
-/

namespace M6

open List

/-! ## Resolving a reference -/

/-- What a browser's URL parser makes of an absolute URL, and of the authority of a
reference that starts with two slashes. -/
structure UrlParser (Origin : Type) where
  absolute : Str → Option Origin
  authority : Str → Option Origin

/-- What is stripped from both ends of a reference. -/
def isControlOrSpace (c : Char) : Bool := c.toNat ≤ 0x20

def isTabOrNewline (c : Char) : Bool := c == '\t' || c == '\n' || c == '\r'

def isSlash (c : Char) : Bool := c == '/' || c == '\\'

def withoutBreaks (s : Str) : Str := s.filter fun c => !isTabOrNewline c

def cleanReference (s : Str) : Str :=
  withoutBreaks ((s.dropWhile isControlOrSpace).rdropWhile isControlOrSpace)

def hasScheme : Str → Bool
  | [] => false
  | c :: s => c.isAlpha && (s.dropWhile fun c =>
      c.isAlphanum || c == '+' || c == '-' || c == '.').head? == some ':'

def twoSlashes : Str → Bool
  | a :: b :: _ => isSlash a && isSlash b
  | _ => false

def authorityText (s : Str) : Str :=
  (s.dropWhile isSlash).takeWhile fun c => !(isSlash c || c == '?' || c == '#')

section

variable {Origin : Type} (p : UrlParser Origin) (site : Origin)

def UrlParser.resolve (reference : Str) : Option Origin :=
  let s := cleanReference reference
  if hasScheme s then p.absolute s
  else if twoSlashes s then p.authority (authorityText s)
  else some site

/-- A target that keeps the head whole and the browser on the site: it has no line
feed, and without tabs and line breaks it has no second slash, unless the authority
behind it is the site's own. -/
def Harmless (target : Str) : Prop :=
  '\n' ∉ target ∧ (twoSlashes (withoutBreaks target) = true →
    p.authority (authorityText (cleanReference target)) = some site)

variable (hash : Bytes → Nat) (r : Responder)

/-- The headers of a response with the defaults of the service: a cache policy, and
for a body a content type and an entity tag. -/
def sentHeaders (resp : RawResponse) : List (Str × Str) :=
  let headers := (resp.intoResponse "no-store".toList).headers
  headers ++
    (if !containsHeader headers "content-type".toList && !resp.body.isEmpty then
      [("Content-Type".toList, "text/html; charset=utf-8".toList)]
    else []) ++
    (if !containsHeader headers "etag".toList && !resp.body.isEmpty then
      [("ETag".toList, '"' :: Nat.toDigits 16 (hash resp.body) ++ ['"'])]
    else [])

def ownFields (resp : RawResponse) : List (Str × Str) :=
  (wireFields r (sentHeaders hash resp) resp.body.length).map asRead

def responseBytes (resp : RawResponse) : Bytes :=
  ((resp.intoResponse "no-store".toList).send hash r ⟨[], none⟩).wire.sent

/-- The bytes of a response hold the fields that were set and no others, and its
target, if it has one, has the origin of the site. -/
def StaysOnSite (resp : RawResponse) : Prop :=
  readHead (Utf8.decodeLossy (responseBytes hash r resp)) = some (ownFields hash r resp) ∧
    ∀ location, header (ownFields hash r resp) "location".toList = some location →
      p.resolve site location = some site

end

theorem responseBytes_eq (hash : Bytes → Nat) (r : Responder) (resp : RawResponse) :
    responseBytes hash r resp =
      (r.send resp.status (sentHeaders hash resp) resp.body ⟨[], none⟩).wire.sent := rfl

/-! ## Targets that start with a slash -/

theorem rdropWhile_rdropWhile {p q : Char → Bool} (h : ∀ c, q c = true → p c = true) (s : Str) :
    (s.rdropWhile q).rdropWhile p = s.rdropWhile p := by
  have hdrop : ∀ t : Str, (t.dropWhile q).dropWhile p = t.dropWhile p := by
    intro t
    induction t with
    | nil => rfl
    | cons c t ih =>
      rcases hq : q c with _ | _
      · rw [dropWhile_cons_of_neg (by simp [hq])]
      · rw [dropWhile_cons_of_pos hq, dropWhile_cons_of_pos (h c hq), ih]
  simp only [rdropWhile, reverse_reverse, hdrop]

/-- Stripping the end of a text keeps its first character, if that is none of what is
stripped. -/
theorem rdropWhile_cons {p : Char → Bool} {c : Char} (hc : p c = false) (s : Str) :
    ∃ t u, (c :: s).rdropWhile p = c :: t ∧ s = t ++ u ∧ ∀ x ∈ u, p x = true := by
  have hne : (c :: s).rdropWhile p ≠ [] := by
    intro hnil
    have := rdropWhile_eq_nil_iff.mp hnil c (mem_cons_self ..)
    rw [hc] at this
    cases this
  obtain ⟨a, t, ht⟩ := exists_cons_of_ne_nil hne
  have happ := rdropWhile_append_rtakeWhile (p := p) (l := c :: s)
  rw [ht, cons_append] at happ
  obtain ⟨rfl, hs⟩ := List.cons.inj happ
  refine ⟨t, (a :: s).rtakeWhile p, ht, hs.symm, fun x hx => ?_⟩
  rw [rtakeWhile, mem_reverse] at hx
  exact mem_takeWhile_imp hx

theorem cleanReference_trimOws (s : Str) :
    cleanReference (trimOws ('/' :: s)) = cleanReference ('/' :: s) := by
  have htrim : trimOws ('/' :: s) = ('/' :: s).rdropWhile isOws := by
    rw [trimOws, dropWhile_cons_of_neg (by decide)]
  have hows : ∀ c, isOws c = true → isControlOrSpace c = true := by
    intro c hc
    rcases (by simpa [isOws] using hc : c = ' ' ∨ c = '\t') with rfl | rfl <;> decide
  obtain ⟨t, u, ht, -, -⟩ := rdropWhile_cons (p := isOws) (c := '/') (by decide) s
  rw [htrim, cleanReference, cleanReference, ht, dropWhile_cons_of_neg (by decide), ← ht,
    rdropWhile_rdropWhile hows, dropWhile_cons_of_neg (by decide)]

theorem twoSlashes_cleanReference (s : Str) :
    twoSlashes (cleanReference ('/' :: s)) = twoSlashes (withoutBreaks ('/' :: s)) := by
  obtain ⟨t, u, ht, rfl, hu⟩ := rdropWhile_cons (p := isControlOrSpace) (c := '/') (by decide) s
  have hfilter : ∀ x : Str, withoutBreaks ('/' :: x) = '/' :: withoutBreaks x := fun x =>
    filter_cons_of_pos (by decide)
  rw [cleanReference, dropWhile_cons_of_neg (by decide), ht, hfilter, hfilter]
  have happ : withoutBreaks (t ++ u) = withoutBreaks t ++ withoutBreaks u := filter_append ..
  rw [happ]
  rcases withoutBreaks t with _ | ⟨b, t'⟩
  · -- what was stripped holds no slash
    rcases hu' : withoutBreaks u with _ | ⟨b, u'⟩
    · rfl
    · have hb : isControlOrSpace b = true := by
        refine hu b (mem_of_mem_filter (p := fun c => !isTabOrNewline c) ?_)
        rw [withoutBreaks] at hu'
        rw [hu']
        exact mem_cons_self ..
      have hslash : isSlash b = false := by
        rcases h : isSlash b with _ | _
        · rfl
        · rcases (by simpa [isSlash] using h : b = '/' ∨ b = '\\') with rfl | rfl <;>
            exact absurd hb (by decide)
      simp [twoSlashes, hslash]
  · rfl

theorem resolve_slash {Origin : Type} (p : UrlParser Origin) (site : Origin) (s : Str) :
    p.resolve site (trimOws ('/' :: s)) = some site ↔
      (twoSlashes (withoutBreaks ('/' :: s)) = true →
        p.authority (authorityText (cleanReference ('/' :: s))) = some site) := by
  have hscheme : hasScheme (cleanReference ('/' :: s)) = false := by
    obtain ⟨t, u, ht, -, -⟩ := rdropWhile_cons (p := isControlOrSpace) (c := '/') (by decide) s
    rw [cleanReference, dropWhile_cons_of_neg (by decide), ht]
    have hfilter : withoutBreaks ('/' :: t) = '/' :: withoutBreaks t :=
      filter_cons_of_pos (by decide)
    rw [hfilter]
    rfl
  simp only [UrlParser.resolve, cleanReference_trimOws, hscheme, Bool.false_eq_true, if_false,
    twoSlashes_cleanReference]
  split_ifs with h
  · simp [h]
  · simp [h]

/-! ## Responses -/

section

variable {Origin : Type} {p : UrlParser Origin} {site : Origin} {hash : Bytes → Nat} {r : Responder}

/-- The names the handlers and the service use are read back. -/
def NameOk (name : Str) : Prop :=
  ':' ∉ name ∧ '\n' ∉ name ∧ Text.eqIgnoreAsciiCase name "content-length".toList = false ∧
    Text.eqIgnoreAsciiCase name "connection".toList = false

instance (name : Str) : Decidable (NameOk name) := inferInstanceAs (Decidable (_ ∧ _ ∧ _ ∧ _))

theorem readHead_responseBytes_iff {resp : RawResponse} {text : Str}
    (hbody : resp.body = Utf8.encode text) (hnames : ∀ f ∈ sentHeaders hash resp, NameOk f.1) :
    readHead (Utf8.decodeLossy (responseBytes hash r resp)) = some (ownFields hash r resp) ↔
      ∀ f ∈ sentHeaders hash resp, '\n' ∉ f.2 := by
  rw [responseBytes_eq, hbody, send_sent, Utf8.decodeLossy_encode, ownFields, hbody]
  exact readHead_headText_iff hnames _ _ _ _

def redirectWith (location : Str) (cookies : List Str) : RawResponse :=
  ⟨302, ("Location".toList, location) :: cookies.map fun c => ("Set-Cookie".toList, c), []⟩

theorem sentHeaders_redirectWith (location : Str) (cookies : List Str) :
    sentHeaders hash (redirectWith location cookies) =
      ("Location".toList, location) :: (cookies.map fun c => ("Set-Cookie".toList, c)) ++
        [("Cache-Control".toList, "no-store".toList)] := by
  have hnone : containsHeader (redirectWith location cookies).headers "cache-control".toList =
      false := by
    rw [containsHeader, any_eq_false]
    intro f hf
    rcases mem_cons.mp hf with rfl | hf
    · exact (by decide : ¬ Text.eqIgnoreAsciiCase "Location".toList "cache-control".toList = true)
    · obtain ⟨c, -, rfl⟩ := mem_map.mp hf
      exact (by decide : ¬ Text.eqIgnoreAsciiCase "Set-Cookie".toList "cache-control".toList = true)
  simp only [sentHeaders, RawResponse.intoResponse, hnone, Bool.not_false, if_true]
  simp [redirectWith]

theorem staysOnSite_redirectWith_iff {s : Str} {cookies : List Str}
    (hcookies : ∀ c ∈ cookies, '\n' ∉ c) :
    StaysOnSite p site hash r (redirectWith ('/' :: s) cookies) ↔ Harmless p site ('/' :: s) := by
  have hnames : ∀ f ∈ sentHeaders hash (redirectWith ('/' :: s) cookies), NameOk f.1 := by
    rw [sentHeaders_redirectWith]
    intro f hf
    rcases mem_append.mp hf with hf | hf
    · rcases mem_cons.mp hf with rfl | hf
      · exact (by decide : NameOk "Location".toList)
      · obtain ⟨c, -, rfl⟩ := mem_map.mp hf
        exact (by decide : NameOk "Set-Cookie".toList)
    · rw [mem_singleton.mp hf]
      decide
  have hvalues : (∀ f ∈ sentHeaders hash (redirectWith ('/' :: s) cookies), '\n' ∉ f.2) ↔
      '\n' ∉ '/' :: s := by
    rw [sentHeaders_redirectWith]
    refine ⟨fun h => h _ (mem_append_left _ (mem_cons_self ..)), fun h f hf => ?_⟩
    rcases mem_append.mp hf with hf | hf
    · rcases mem_cons.mp hf with rfl | hf
      · exact h
      · obtain ⟨c, hc, rfl⟩ := mem_map.mp hf
        exact hcookies c hc
    · rw [mem_singleton.mp hf]
      decide
  have hlocation : header (ownFields hash r (redirectWith ('/' :: s) cookies)) "location".toList =
      some (trimOws ('/' :: s)) := by
    rw [ownFields, wireFields, sentHeaders_redirectWith]
    rfl
  have hread := readHead_responseBytes_iff (r := r) (rfl : _ = Utf8.encode []) hnames
  simp only [StaysOnSite, hread, hvalues, hlocation, Option.some.injEq, forall_eq', resolve_slash,
    Harmless]

theorem staysOnSite_internalError : StaysOnSite p site hash r internalError := by
  have hsent : sentHeaders hash internalError = [("Content-Type".toList, "application/json".toList),
        ("Cache-Control".toList, "no-store".toList),
        ("ETag".toList, '"' :: Nat.toDigits 16 (hash internalError.body) ++ ['"'])] := rfl
  refine ⟨(readHead_responseBytes_iff rfl ?_).mpr ?_, fun location hlocation => ?_⟩
  · rw [hsent]
    intro f hf
    simp only [mem_cons, not_mem_nil, or_false] at hf
    rcases hf with rfl | rfl | rfl
    · exact (by decide : NameOk "Content-Type".toList)
    · exact (by decide : NameOk "Cache-Control".toList)
    · exact (by decide : NameOk "ETag".toList)
  · rw [hsent]
    intro f hf
    simp only [mem_cons, not_mem_nil, or_false] at hf
    rcases hf with rfl | rfl | rfl
    · decide
    · decide
    · simp only [mem_cons, mem_append, not_mem_nil, or_false, not_or]
      exact ⟨⟨by decide, not_mem_toDigits 16 _⟩, by decide⟩
  · rw [ownFields, hsent] at hlocation
    cases hlocation

theorem harmless_of_plain {s : Str} (hbreak : '\n' ∉ s)
    (hsecond : twoSlashes (withoutBreaks s) = false) : Harmless p site s :=
  ⟨hbreak, fun h => by rw [hsecond] at h; cases h⟩

/-! ## The handlers -/

theorem not_mem_of_isTokenChar {t : Str} (h : ∀ x ∈ t, isTokenChar x = true) : '\n' ∉ t := by
  intro hmem
  exact absurd (h _ hmem) (by decide)

theorem not_mem_cookieAttributes {path : Str} (h : '\n' ∉ path) (ttl : Nat) :
    '\n' ∉ cookieAttributes path ttl := by
  unfold cookieAttributes
  simp only [mem_append, not_or]
  exact ⟨⟨⟨by decide, h⟩, by decide⟩, not_mem_decimal ttl⟩

theorem not_mem_sessionCookie {jwt : Str} (h : '\n' ∉ jwt) (ttl : Nat) :
    '\n' ∉ sessionCookie jwt ttl := by
  unfold sessionCookie
  simp only [mem_append, not_or]
  exact ⟨⟨by decide, h⟩, not_mem_cookieAttributes (by decide) ttl⟩

theorem not_mem_refreshCookie {jwt : Str} (h : '\n' ∉ jwt) (ttl : Nat) :
    '\n' ∉ refreshCookie jwt ttl := by
  unfold refreshCookie
  simp only [mem_append, not_or]
  exact ⟨⟨by decide, h⟩, not_mem_cookieAttributes (by decide) ttl⟩

theorem isSameOriginPath_cons {s : Str} (h : isSameOriginPath s = true) : ∃ t, s = '/' :: t := by
  rcases s with _ | ⟨c, t⟩
  · cases h
  · have hc : c = '/' := by
      have := (Bool.and_eq_true_iff.mp h).1
      simpa using this
    exact ⟨t, by rw [hc]⟩

theorem not_mem_urlEncodePath (s : Str) : '\n' ∉ urlEncodePath s := by
  have h : ∀ n < 256, '\n' ∉ encodeByte true (UInt8.ofNat n) := by decide +kernel
  intro hmem
  obtain ⟨b, -, hb⟩ := mem_flatMap.mp hmem
  have hb' := h b.toNat (UInt8.toNat_lt b)
  rw [UInt8.ofNat_toNat] at hb'
  exact hb' hb

variable {libs : Libs} {st : AppState} {env : Env} {raw : RawRequest}

theorem harmless_refused (next : Str) :
    Harmless p site ("/login?error=invalid&next=".toList ++ urlEncodePath next) := by
  refine harmless_of_plain ?_ rfl
  rw [mem_append, not_or]
  exact ⟨by decide, not_mem_urlEncodePath next⟩

theorem harmless_root : Harmless p site "/".toList := harmless_of_plain (by decide) rfl

theorem harmless_login : Harmless p site "/login".toList := harmless_of_plain (by decide) rfl

def loginField (raw : RawRequest) (key : Str) : Option Str := formField (parseFormBody raw.body) key

theorem handleLoginForm_cases (peer : Str) :
    (∃ user access refresh, LogsInAs libs st env ((loginField raw "username".toList).getD [])
        ((loginField raw "password".toList).getD []) user access refresh ∧
      (handleLoginForm libs st env raw peer).1 =
        redirectWith (validateNext (loginField raw "next".toList))
          [sessionCookie access st.accessTtl, refreshCookie refresh st.refreshTtl]) ∨
    ((∀ user access refresh, ¬ LogsInAs libs st env ((loginField raw "username".toList).getD [])
        ((loginField raw "password".toList).getD []) user access refresh) ∧
      ((handleLoginForm libs st env raw peer).1 = internalError ∨
        (handleLoginForm libs st env raw peer).1 =
          redirectWith ("/login?error=invalid&next=".toList ++
            urlEncodePath (validateNext (loginField raw "next".toList))) [])) := by
  rcases @logIn_cases libs st env ((loginField raw "username".toList).getD [])
    ((loginField raw "password".toList).getD [])
    (redirectTo ("/login?error=invalid&next=".toList ++
      urlEncodePath (validateNext (loginField raw "next".toList))))
    (fun access refresh =>
      ((redirectTo (validateNext (loginField raw "next".toList))).header "Set-Cookie".toList
        (sessionCookie access st.accessTtl)).header
        "Set-Cookie".toList (refreshCookie refresh st.refreshTtl))
    peer with ⟨user, access, refresh, hlogin, hresp, -, -⟩ | ⟨hno, hresp, -, -⟩
  · exact Or.inl ⟨user, access, refresh, hlogin, hresp⟩
  · exact Or.inr ⟨hno, hresp⟩

theorem validateNext_cons (next : Option Str) : ∃ t, validateNext next = '/' :: t := by
  rcases next with _ | n
  · exact ⟨[], rfl⟩
  · rw [validateNext]
    split_ifs with h
    · exact isSameOriginPath_cons h
    · exact ⟨[], rfl⟩

theorem harmless_validateNext_iff (next : Option Str) :
    Harmless p site (validateNext next) ↔
      ∀ n, next = some n → isSameOriginPath n = true → Harmless p site n := by
  rcases next with _ | n
  · exact ⟨fun _ n hn => (nomatch hn), fun _ => harmless_root⟩
  · rw [validateNext]
    split_ifs with h
    · exact ⟨fun hn m hm _ => Option.some.inj hm ▸ hn, fun hn => hn n rfl h⟩
    · refine ⟨fun _ m hm hm' => ?_, fun _ => harmless_root⟩
      cases hm
      exact absurd hm' h

theorem login_stays_iff (peer : Str) :
    StaysOnSite p site hash r (handleLoginForm libs st env raw peer).1 ↔
      ((∃ user access refresh, LogsInAs libs st env ((loginField raw "username".toList).getD [])
          ((loginField raw "password".toList).getD []) user access refresh) →
        ∀ next, loginField raw "next".toList = some next → isSameOriginPath next = true →
          Harmless p site next) := by
  rcases @handleLoginForm_cases libs st env raw peer with
    ⟨user, access, refresh, hlogin, hresp⟩ | ⟨hno, hresp⟩
  · obtain ⟨haccess, hrefresh, -⟩ := issueTokens_chars hlogin.issued
    have hcookies : ∀ c ∈ [sessionCookie access st.accessTtl, refreshCookie refresh st.refreshTtl],
        '\n' ∉ c := by
      intro c hc
      simp only [mem_cons, not_mem_nil, or_false] at hc
      rcases hc with rfl | rfl
      · exact not_mem_sessionCookie (not_mem_of_isTokenChar haccess) _
      · exact not_mem_refreshCookie (not_mem_of_isTokenChar hrefresh) _
    obtain ⟨t, ht⟩ := validateNext_cons (loginField raw "next".toList)
    have hiff := @harmless_validateNext_iff _ p site (loginField raw "next".toList)
    rw [ht] at hiff
    rw [hresp, ht, staysOnSite_redirectWith_iff hcookies, hiff]
    exact ⟨fun h _ => h, fun h => h ⟨user, access, refresh, hlogin⟩⟩
  · refine iff_of_true ?_ fun ⟨user, access, refresh, h⟩ => absurd h (hno user access refresh)
    rcases hresp with hresp | hresp
    · rw [hresp]
      exact staysOnSite_internalError
    · rw [hresp]
      exact (staysOnSite_redirectWith_iff (by simp)).mpr (harmless_refused _)

theorem refresh_stays_iff :
    StaysOnSite p site hash r (handleRefreshBrowser libs st env raw) ↔
      ((∃ token fresh, requestCookie raw "refresh".toList = some token ∧
          doRefresh libs st env token = some fresh) →
        ∀ referer, raw.header "referer".toList = some referer → isSameOriginPath referer = true →
          Harmless p site referer) := by
  have hlogin : StaysOnSite p site hash r (redirectTo "/login".toList) :=
    (staysOnSite_redirectWith_iff fun c hc => (not_mem_nil hc).elim).mpr harmless_login
  rw [handleRefreshBrowser]
  rcases hcookie : requestCookie raw "refresh".toList with _ | token
  · refine iff_of_true hlogin ?_
    rintro ⟨token, fresh, h, -⟩
    cases h
  rcases hrefresh : doRefresh libs st env token with _ | ⟨access, userId⟩
  · refine iff_of_true (by simpa only [hrefresh] using hlogin) ?_
    rintro ⟨token', fresh, h, h'⟩
    cases h
    cases hrefresh.symm.trans h'
  · have hcookies : ∀ c ∈ [sessionCookie access st.accessTtl], '\n' ∉ c := by
      intro c hc
      rw [mem_singleton.mp hc]
      exact not_mem_sessionCookie (not_mem_of_isTokenChar (doRefresh_chars hrefresh)) _
    have hlocation : ((raw.header "referer".toList).filter isSameOriginPath).getD "/".toList =
        validateNext (raw.header "referer".toList) := by
      rcases raw.header "referer".toList with _ | n
      · rfl
      · rw [validateNext, Option.filter_some]
        split_ifs <;> rfl
    obtain ⟨t, ht⟩ := validateNext_cons (raw.header "referer".toList)
    have hiff := @harmless_validateNext_iff _ p site (raw.header "referer".toList)
    rw [ht] at hiff
    simp only [hrefresh, hlocation, ht]
    refine (staysOnSite_redirectWith_iff hcookies).trans (hiff.trans ?_)
    exact ⟨fun h _ => h, fun h => h ⟨token, _, rfl, hrefresh⟩⟩

end

/-- **Login redirects stay on the site** if and only if the login or the refresh does
not go through, or its target (the form's `next`, the request's `Referer`) is missing,
refused by the check, or harmless: no line feed, and no second slash once tabs and line
breaks are removed, unless the site's own authority follows. -/
theorem redirects_stay_iff {Origin : Type} (p : UrlParser Origin) (site : Origin)
    (hash : Bytes → Nat) (r : Responder) (libs : Libs) (st : AppState) (env : Env)
    (raw : RawRequest) (peer : Str) :
    (StaysOnSite p site hash r (handleLoginForm libs st env raw peer).1 ↔
      ((∃ user access refresh, LogsInAs libs st env ((loginField raw "username".toList).getD [])
          ((loginField raw "password".toList).getD []) user access refresh) →
        ∀ next, loginField raw "next".toList = some next → isSameOriginPath next = true →
          Harmless p site next)) ∧
    (StaysOnSite p site hash r (handleRefreshBrowser libs st env raw) ↔
      ((∃ token fresh, requestCookie raw "refresh".toList = some token ∧
          doRefresh libs st env token = some fresh) →
        ∀ referer, raw.header "referer".toList = some referer → isSameOriginPath referer = true →
          Harmless p site referer)) :=
  ⟨login_stays_iff peer, refresh_stays_iff⟩

def loginForm (next : Str) : RawRequest :=
  ⟨"POST".toList, "/auth/login".toList, none, "HTTP/1.1".toList, [],
    Utf8.encode ("username=ann&password=secret&next=".toList ++ urlEncode next)⟩

/-- A tab before the second slash sends the browser to another site, and a line break
adds a cookie of the attacker's to the response. -/
theorem next_leaves_site :
    ¬ StaysOnSite ⟨some, some⟩ "site.example".toList (fun _ => 0) (.new "POST".toList true)
        (handleLoginForm smallLibs smallServer calm
          (loginForm "/\t/evil.example".toList) "unix".toList).1 ∧
      ¬ StaysOnSite ⟨some, some⟩ "site.example".toList (fun _ => 0) (.new "POST".toList true)
        (handleLoginForm smallLibs smallServer calm
          (loginForm "/\r\nSet-Cookie: session=forged".toList) "unix".toList).1 := by
  have hresp : ∀ next ∈ ["/\t/evil.example".toList, "/\r\nSet-Cookie: session=forged".toList],
      (handleLoginForm smallLibs smallServer calm (loginForm next) "unix".toList).1 =
        redirectWith next [sessionCookie "access.token.signature".toList 900,
          refreshCookie "refresh.token.signature".toList 3600] := by
    decide +kernel
  have hcookies : ∀ c ∈ [sessionCookie "access.token.signature".toList 900,
      refreshCookie "refresh.token.signature".toList 3600], '\n' ∉ c := by
    decide
  rw [hresp _ (by decide), hresp _ (by decide)]
  constructor
  · intro h
    exact absurd (((staysOnSite_redirectWith_iff hcookies).mp h).2 (by decide)) (by decide)
  · intro h
    exact absurd ((staysOnSite_redirectWith_iff hcookies).mp h).1 (by decide)

end M6
