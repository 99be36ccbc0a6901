import M6.Core.ClientKeys
import M6.Core.Methods
import M6.Lib.Base64

/-!
# Flash messages

`Response::flash` of `response.rs` signs a message into a `_flash` cookie, and `build_dict` verifies
the cookie with the key of the state. `FrameworkState::build` takes that key from the user's part of
the config, where `flash_secret` never is: it is one of the keys that loading a config takes out
(`build_flashSecret`). So the state verifies with the empty key, and a service exits when it is
about to serve with such a state (`startUp`).

`flashKept_iff` says what follows of the state: a message comes back, and a cookie of another key
does not, only under a secret that is itself no key, zeros or nothing at all.
-/

namespace M6.App

open List Option SortedMap Text

/-! ## Signing -/

/-- What signing uses: the encoder, and the hash that stands for a key longer than a block. -/
structure Signer where
  /-- base64 with the URL alphabet, unpadded -/
  encode : Bytes → Str
  sha256 : Bytes → Bytes

/-- The key as HMAC takes it: hashed if it is longer than a block, and filled up with zeros. -/
def Signer.blockKey (sg : Signer) (key : Bytes) : Bytes :=
  let key := if 64 < key.length then sg.sha256 key else key
  key ++ List.replicate (64 - key.length) 0

/-- A codec whose base64 is correct, and whose HMAC has no collisions. -/
structure Signing (codec : Codec) extends Signer where
  decode_encode : ∀ bytes, codec.base64UrlNoPad (encode bytes) = some bytes
  mem_encode : ∀ bytes, ∀ c ∈ encode bytes, c ∈ Base64.alphabet
  hmac_eq_iff : ∀ key key' data data',
    codec.hmacSha256 key data = codec.hmacSha256 key' data' ↔
      toSigner.blockKey key = toSigner.blockKey key' ∧ data = data'

section

variable (codec : Codec) (sg : Signer)

/-- The value of the cookie, `<base64(message)>.<base64(hmac)>`. -/
def flashValue (message : Str) (secret : Bytes) : Str :=
  let msg64 := sg.encode (Utf8.encode message)
  msg64 ++ '.' :: sg.encode (codec.hmacSha256 secret (Utf8.encode msg64))

def AppResponse.flash (resp : AppResponse) (message : Str) (secret : Bytes) : AppResponse :=
  { resp with
    headers := resp.headers ++
      [("Set-Cookie".toList, "_flash=".toList ++ flashValue codec sg message secret ++
        "; Max-Age=120; Path=/; HttpOnly".toList)] }

end

/-- What a client keeps of a `Set-Cookie`, and sends back. -/
def sentBack (setCookie : Str) : Str := (Text.cutAt ';' setCookie).1

/-- The `Cookie` line of the cookies. -/
def cookieLine (cookies : List Str) : Str := "; ".toList.intercalate cookies

def OtherCookie (cookie : Str) : Prop :=
  ';' ∉ cookie ∧ ∀ p ∈ cookiePairs cookie, p.1 ≠ "_flash".toList

/-! ## The key of a state -/

/-- The key of a config: the standard alphabet is tried before the other. -/
def decodeSecret (codec : Codec) (text : Str) : Option Bytes :=
  (codec.base64Standard text).or (codec.base64UrlNoPad text)

theorem lastValue_userConfig {entries : List (Str × Toml)} {k : Str} (hk : k ∈ frameworkKeys) :
    SortedMap.lastValue
      (Toml.entriesToJson (entries.filter fun e => e.1 ∉ frameworkKeys)) k = none := by
  have hnames : ∀ entries : List (Str × Toml), (∀ e ∈ entries, e.1 ∉ frameworkKeys) →
      lastValue (Toml.entriesToJson entries) k = none := by
    intro entries
    induction entries with
    | nil => exact fun _ => rfl
    | cons e rest ih =>
      intro h
      have he : e.1 ∉ frameworkKeys := h e mem_cons_self
      have hne : k ≠ e.1 := fun hke => he (hke ▸ hk)
      rw [Toml.entriesToJson, lastValue_cons, if_neg hne, or_none]
      exact ih fun e' he' => h e' (mem_cons_of_mem _ he')
  exact hnames _ fun e he => of_decide_eq_true (mem_filter.mp he).2

theorem userConfig_of_load {os : Platform} {files : Files} {configPath : Str}
    {config : RendererConfig} (h : load os files configPath = some (.ok config)) {k : Str}
    (hk : k ∈ frameworkKeys) : config.userConfig.get? k = none := by
  rw [load] at h
  cases hdoc : document os files configPath with
  | error e =>
    rw [hdoc] at h
    cases h
  | ok tv =>
    rw [hdoc, map_eq_some_iff] at h
    obtain ⟨r, hr, hmap⟩ := h
    rw [parseConfig] at hr
    obtain ⟨threadPool, -, hr⟩ := bind_eq_some_iff.mp hr
    cases hr
    have hok : ∀ {r : Except ConfigError RendererConfig},
        r.mapError LoadError.refused = .ok config → r = .ok config := by
      intro r h
      cases r with
      | error e => cases h
      | ok c => exact congrArg _ (Except.ok.inj h)
    obtain ⟨server, -, hrest⟩ := Failing.bind_eq_ok.mp (hok hmap)
    obtain ⟨routes, -, hrest⟩ := Failing.bind_eq_ok.mp hrest
    obtain ⟨siteToml, -, hrest⟩ := Failing.bind_eq_ok.mp hrest
    cases hrest
    rw [get?_insertAll, lastValue_userConfig hk]
    rfl

theorem build_flashSecret {os : Platform} {files : Files} {configPath : Str} {disk : Disk}
    {svc : Service} {config : RendererConfig} {state : AppState}
    (hload : load os files configPath = some (.ok config))
    (hbuild : build os disk svc config = some (.ok state)) : state.flashSecret = [] := by
  have hnone := userConfig_of_load hload (k := "flash_secret".toList) (by decide)
  have hkey : flashSecret os svc config = .ok [] := by
    rw [flashSecret, hnone]
    exact if_neg fun h => h.2 rfl
  rw [build] at hbuild
  cases hinputs : readInputs os disk svc config with
  | error e =>
    rw [hinputs] at hbuild
    cases hbuild
  | ok inputs =>
    rw [hinputs] at hbuild
    dsimp only at hbuild
    split_ifs at hbuild
    obtain ⟨secret, hsecret, hstate⟩ := Failing.bind_eq_ok.mp (some.inj hbuild)
    cases hstate
    exact (Except.ok.inj (hkey.symm.trans hsecret)).symm

/-- The last check before a service serves: with the feature and without a key it exits with 2. -/
def startUp (svc : Service) (state : AppState) : Except Nat AppState :=
  if svc.flash ∧ state.flashSecret = [] then .error 2 else .ok state

/-- A service with the feature, and the state that it builds of a config with a secret. -/
structure FlashService where
  os : Platform
  files : Files
  configPath : Str
  svc : Service
  disk : Disk
  tv : Toml
  /-- `flash_secret` -/
  text : Str
  secret : Bytes
  config : RendererConfig
  state : AppState
  feature : svc.flash = true
  document_eq : document os files configPath = .ok tv
  get?_eq : tv.get? "flash_secret".toList = some (.string text)
  decodeSecret_eq : decodeSecret os.codec text = some secret
  load_eq : load os files configPath = some (.ok config)
  build_eq : build os disk svc config = some (.ok state)

def FlashService.framework (s : FlashService) : FrameworkState :=
  let generation : Generation := ⟨s.state, .empty⟩
  generation.inner.framework s.os s.svc generation.shared

/-! ## The round trip -/

/-- **Flash messages survive**, and nothing else is one. -/
structure FlashKept (s : FlashService) (sg : Signer) : Prop where
  /-- a message comes back, beside any other cookies -/
  roundTrip : ∀ (resp : AppResponse) (message setCookie : Str) (before after : List Str)
    (now : Moment) (raw : RawRequest) (route : CompiledRoute) (params : PathParams) (dict : Dict),
    (resp.flash s.os.codec sg message s.secret).headers.getLast? =
      some ("Set-Cookie".toList, setCookie) →
    (∀ cookie ∈ before ++ after, OtherCookie cookie) →
    raw.header "cookie".toList = some (cookieLine (before ++ sentBack setCookie :: after)) →
    buildDict s.framework now raw route params = .ok dict →
      dict.get "flash".toList = some (.string message)
  /-- a cookie of another key sets nothing -/
  forged : ∀ (key data : Bytes) (msg64 : Str) (now : Moment) (raw : RawRequest)
    (route : CompiledRoute) (params : PathParams) (dict : Dict),
    sg.blockKey key ≠ sg.blockKey s.secret → '.' ∉ msg64 →
    (cookiesMap raw).get? "_flash".toList =
      some (.string (msg64 ++ '.' :: sg.encode (s.os.codec.hmacSha256 key data))) →
    buildDict s.framework now raw route params = .ok dict →
      dict.get "flash".toList = belowValue s.framework now route params raw "flash".toList

section

variable {codec : Codec} (sg : Signing codec)

theorem verifyFlashCookie_signed {msg64 : Str} (hdot : '.' ∉ msg64) (provided key : Bytes) :
    verifyFlashCookie codec (msg64 ++ '.' :: sg.encode provided) key =
      if codec.hmacSha256 key (Utf8.encode msg64) = provided then
        (codec.base64UrlNoPad msg64).bind Utf8.fromUtf8?
      else none := by
  rw [verifyFlashCookie, cutAt_append _ hdot]
  dsimp only
  rw [sg.decode_encode]

theorem alphabet_plain : ∀ c ∈ Base64.alphabet,
    Text.isWhitespace c = false ∧ c ≠ ';' ∧ c ≠ '.' := by
  have hall : Base64.alphabet.all fun c => !isWhitespace c && c != ';' && c != '.' := by decide
  intro c hc
  simpa [and_assoc] using all_eq_true.mp hall c hc

theorem verifyFlashCookie_flashValue (message : Str) (secret key : Bytes) :
    verifyFlashCookie codec (flashValue codec sg.toSigner message secret) key =
      if sg.blockKey key = sg.blockKey secret then some message else none := by
  have hdot : '.' ∉ sg.encode (Utf8.encode message) :=
    fun h => (alphabet_plain _ (sg.mem_encode _ _ h)).2.2 rfl
  rw [flashValue, verifyFlashCookie_signed sg hdot]
  refine if_congr ?_ ?_ rfl
  · rw [sg.hmac_eq_iff, and_iff_left rfl]
  · rw [sg.decode_encode, bind_some, Utf8.fromUtf8?_encode]

theorem verifyFlashCookie_forged {msg64 : Str} (hdot : '.' ∉ msg64) {key key' : Bytes}
    (hkey : sg.blockKey key ≠ sg.blockKey key') (data : Bytes) :
    verifyFlashCookie codec (msg64 ++ '.' :: sg.encode (codec.hmacSha256 key' data))
      key = none := by
  rw [verifyFlashCookie_signed sg hdot, if_neg]
  exact fun h => hkey ((sg.hmac_eq_iff _ _ _ _).mp h).1

theorem cookiePairs_sentBack {resp : AppResponse} {message setCookie : Str} {secret : Bytes}
    (h : (resp.flash codec sg.toSigner message secret).headers.getLast? =
      some ("Set-Cookie".toList, setCookie)) : cookiePairs (sentBack setCookie) =
      [("_flash".toList, flashValue codec sg.toSigner message secret)] := by
  have hplain : ∀ c ∈ flashValue codec sg.toSigner message secret,
      isWhitespace c = false ∧ c ≠ ';' := by
    intro c hc
    rw [flashValue, mem_append, mem_cons] at hc
    rcases hc with hc | rfl | hc
    · have := alphabet_plain c (sg.mem_encode _ _ hc)
      exact ⟨this.1, this.2.1⟩
    · decide
    · have := alphabet_plain c (sg.mem_encode _ _ hc)
      exact ⟨this.1, this.2.1⟩
  rw [AppResponse.flash, getLast?_concat, some.injEq, Prod.mk.injEq] at h
  obtain ⟨-, rfl⟩ := h
  generalize flashValue codec sg.toSigner message secret = value at hplain ⊢
  have hname : ∀ c ∈ "_flash".toList, isWhitespace c = false ∧ c ≠ ';' := by
    have hall : "_flash".toList.all fun c => !isWhitespace c && c != ';' := by decide
    intro c hc
    simpa using all_eq_true.mp hall c hc
  have hall : ∀ c ∈ "_flash".toList ++ '=' :: value, isWhitespace c = false ∧ c ≠ ';' := by
    intro c hc
    rw [mem_append, mem_cons] at hc
    rcases hc with hc | rfl | hc
    · exact hname c hc
    · decide
    · exact hplain c hc
  have hsemicolon : ';' ∉ "_flash".toList ++ '=' :: value := fun h => (hall _ h).2 rfl
  have hback : sentBack ("_flash=".toList ++ value ++ "; Max-Age=120; Path=/; HttpOnly".toList) =
      "_flash".toList ++ '=' :: value :=
    congrArg Prod.fst (cutAt_append _ hsemicolon)
  rw [hback, cookiePairs_single hsemicolon, trim_eq_self fun c hc => (hall c hc).1,
    cutAt_append _ (by decide)]
  dsimp only
  rw [map_some, toList_some, trim_eq_self fun c hc => (hname c hc).1,
    trim_eq_self fun c hc => (hplain c hc).1]

theorem cookiesMap_sentBack {resp : AppResponse} {message setCookie : Str} {secret : Bytes}
    (h : (resp.flash codec sg.toSigner message secret).headers.getLast? =
      some ("Set-Cookie".toList, setCookie))
    {before after : List Str} (hothers : ∀ cookie ∈ before ++ after, OtherCookie cookie)
    {raw : RawRequest} (hcookie : raw.header "cookie".toList =
      some (cookieLine (before ++ sentBack setCookie :: after))) :
    (cookiesMap raw).get? "_flash".toList =
      some (.string (flashValue codec sg.toSigner message secret)) := by
  have hafter : lastValue (after.flatMap cookiePairs) "_flash".toList = none := by
    rw [lastValue_eq_none]
    intro p hp
    obtain ⟨cookie, hmem, hp⟩ := mem_flatMap.mp hp
    exact (hothers cookie (mem_append_right _ hmem)).2 p hp
  rw [cookiesMap, hcookie]
  dsimp only
  rw [parseCookies, cookieLine, cookiePairs_intercalate, flatMap_append, flatMap_cons,
    cookiePairs_sentBack sg h, get?_insertAll, lastValue_strings,
    lastValue_append, lastValue_append, hafter]
  rfl

end

theorem FlashService.flashMessage_eq (s : FlashService) {raw : RawRequest} {cookie : Str}
    (h : (cookiesMap raw).get? "_flash".toList = some (.string cookie)) :
    flashMessage s.framework raw = verifyFlashCookie s.os.codec cookie [] := by
  have hflash : s.framework.flash = true := s.feature
  have hkey : s.framework.flashSecret = [] := build_flashSecret s.load_eq s.build_eq
  rw [flashMessage, if_pos hflash, h, hkey]
  rfl

/-- A request with a `Cookie` line, and a dictionary to which no layer below gives a flash. -/
theorem FlashService.exists_dict (s : FlashService) (line : Str) :
    ∃ raw dict, raw.header "cookie".toList = some line ∧
      buildDict s.framework plainMoment raw (plainRoute "/") [] = .ok dict ∧
      belowValue s.framework plainMoment (plainRoute "/") [] raw "flash".toList = none := by
  refine ⟨{ plainRequest "GET" "/" "" [] with headers := [("cookie".toList, line)] }, _, rfl,
    buildDict_ok.mpr ⟨[], rfl, fun p hp => absurd hp not_mem_nil, rfl⟩, rfl⟩

/-- **When flash messages survive**: by the state that is built, exactly under a secret that HMAC
takes for the empty key. By a service never: it exits before it serves, whatever its secret. -/
theorem flashKept_iff (s : FlashService) (sg : Signing s.os.codec) :
    (FlashKept s sg.toSigner ↔ sg.blockKey s.secret = sg.blockKey []) ∧
      startUp s.svc s.state = .error 2 := by
  refine ⟨?_, if_pos ⟨s.feature, build_flashSecret s.load_eq s.build_eq⟩⟩
  constructor
  · intro h
    by_contra hne
    let resp := (AppResponse.ofStatus 200).flash s.os.codec sg.toSigner [] s.secret
    obtain ⟨setCookie, hset⟩ : ∃ setCookie,
        resp.headers.getLast? = some ("Set-Cookie".toList, setCookie) := ⟨_, getLast?_concat⟩
    obtain ⟨raw, dict, hcookie, hbuilt, hbelow⟩ :=
      s.exists_dict (cookieLine ([] ++ sentBack setCookie :: []))
    have hothers : ∀ cookie ∈ ([] ++ [] : List Str), OtherCookie cookie :=
      fun _ hmem => absurd hmem not_mem_nil
    have hmessage := h.roundTrip _ _ _ _ _ _ _ _ _ _ hset hothers hcookie hbuilt
    rw [get_flash hbuilt, hbelow, s.flashMessage_eq (cookiesMap_sentBack sg hset hothers hcookie),
      verifyFlashCookie_flashValue, if_neg fun heq => hne heq.symm] at hmessage
    cases hmessage
  · intro hempty
    constructor
    · intro resp message setCookie before after now raw route params dict hset hothers
        hcookie hbuilt
      rw [get_flash hbuilt, s.flashMessage_eq (cookiesMap_sentBack sg hset hothers hcookie),
        verifyFlashCookie_flashValue, if_pos hempty.symm]
      rfl
    · intro key data msg64 now raw route params dict hkey hdot hcookie hbuilt
      rw [get_flash hbuilt, s.flashMessage_eq hcookie,
        verifyFlashCookie_forged sg hdot (fun h => hkey (h.symm.trans hempty.symm))]
      rfl

/-! ## A service with a secret -/

/-- A long key is cut to the size of a hash. -/
def urlSigner : Signer := ⟨Base64.encode, fun key => key.take 32⟩

theorem length_blockKey (key : Bytes) : (urlSigner.blockKey key).length = 64 := by
  rw [Signer.blockKey, length_append, length_replicate]
  split_ifs
  · have := length_take_le 32 key
    change (key.take 32).length + (64 - (key.take 32).length) = 64
    omega
  · omega

/-- The config: a secret of six bytes, `secret`. -/
def flashConfig : Str := "flash_secret = \"c2VjcmV0\"\n".toList

def flashDocument : List (Str × Toml) := [("flash_secret".toList, .string "c2VjcmV0".toList)]

/-- The HMAC-SHA256 of `aGk`, which is `hi` in base64, under the secret and under the empty key, and
key and data in place of any other. -/
def greetingHmac (key data : Bytes) : Bytes :=
  let block := urlSigner.blockKey key
  if data = Utf8.encode "aGk".toList ∧ block = urlSigner.blockKey (Utf8.encode "secret".toList) then
    [108, 152, 119, 97, 22, 253, 104, 76, 80, 156, 186, 158, 231, 154, 247, 176, 59, 34, 89, 110,
      205, 198, 230, 248, 231, 67, 108, 68, 19, 138, 174, 252]
  else if data = Utf8.encode "aGk".toList ∧ block = urlSigner.blockKey [] then
    [42, 43, 36, 86, 38, 137, 85, 93, 91, 176, 217, 94, 131, 16, 107, 180, 124, 21, 120, 173, 137,
      253, 28, 84, 203, 17, 8, 3, 68, 61, 26, 76]
  else block ++ data

theorem greetingHmac_inj (key key' data data' : Bytes)
    (h : greetingHmac key data = greetingHmac key' data') :
    urlSigner.blockKey key = urlSigner.blockKey key' ∧ data = data' := by
  have hlong := length_blockKey key
  have hlong' := length_blockKey key'
  rw [greetingHmac, greetingHmac] at h
  -- the hashes are of 32 bytes, and anything else is longer
  have hlength := congrArg List.length h
  split_ifs at h hlength with h₁ h₂ h₃ h₄ h₅ h₆ h₇ h₈
  · exact ⟨h₁.2.trans h₂.2.symm, h₁.1.trans h₂.1.symm⟩
  · exact absurd h (by decide)
  · simp only [length_append, length_cons, length_nil] at hlength
    omega
  · exact absurd h (by decide)
  · exact ⟨h₄.2.trans h₆.2.symm, h₄.1.trans h₆.1.symm⟩
  · simp only [length_append, length_cons, length_nil] at hlength
    omega
  · simp only [length_append, length_cons, length_nil] at hlength
    omega
  · simp only [length_append, length_cons, length_nil] at hlength
    omega
  · exact append_inj h (hlong.trans hlong'.symm)

theorem greetingHmac_eq_iff (key key' data data' : Bytes) :
    greetingHmac key data = greetingHmac key' data' ↔
      urlSigner.blockKey key = urlSigner.blockKey key' ∧ data = data' := by
  refine ⟨greetingHmac_inj key key' data data', ?_⟩
  rintro ⟨hkey, rfl⟩
  rw [greetingHmac, greetingHmac, hkey]

def greetingPlatform : Platform :=
  { fourCores [(flashConfig, flashDocument)] with
    codec := ⟨Base64.decode, Base64.decode, fun _ => none, greetingHmac⟩ }

/-- `urlSigner` and `greetingHmac` are correct. -/
def greetingSigning : Signing greetingPlatform.codec where
  toSigner := urlSigner
  decode_encode := Base64.decode_encode
  mem_encode := Base64.mem_encode
  hmac_eq_iff := greetingHmac_eq_iff

def greetingSvc : Service := { plainService with flash := true }

theorem document_flashConfig :
    document greetingPlatform (configDisk flashConfig).files plainService.configPath =
      .ok (.table flashDocument) := by
  have hread : (configDisk flashConfig).files.readToString plainService.configPath =
      some flashConfig := by
    decide
  rw [document, hread]
  rfl

def greetingService : FlashService where
  os := greetingPlatform
  files := (configDisk flashConfig).files
  configPath := plainService.configPath
  svc := greetingSvc
  disk := configDisk flashConfig
  tv := .table flashDocument
  text := "c2VjcmV0".toList
  secret := Utf8.encode "secret".toList
  config := plainConfig
  state := ⟨plainConfig, plainService.siteDir, [], 256, fun _ _ => .error .notFound, []⟩
  feature := rfl
  document_eq := document_flashConfig
  get?_eq := rfl
  decodeSecret_eq := by decide
  load_eq := by
    rw [load, document_flashConfig]
    rfl
  build_eq := rfl

theorem flashKept_greeting :
    (FlashKept greetingService urlSigner ↔
        urlSigner.blockKey (Utf8.encode "secret".toList) = urlSigner.blockKey []) ∧
      startUp greetingSvc greetingService.state = .error 2 :=
  flashKept_iff greetingService greetingSigning

/-- The `Set-Cookie` of the greeting. -/
def greetingCookie : Str :=
  "_flash=aGk.bJh3YRb9aExQnLqe55r3sDsiWW7Nxub450NsRBOKrvw; Max-Age=120; Path=/; HttpOnly".toList

theorem greeting_lost : ¬ FlashKept greetingService urlSigner := by
  intro h
  have hset : ((AppResponse.ofStatus 200).flash greetingPlatform.codec urlSigner "hi".toList
      greetingService.secret).headers.getLast? = some ("Set-Cookie".toList, greetingCookie) := by
    decide +kernel
  obtain ⟨raw, dict, hcookie, hbuilt, hbelow⟩ :=
    greetingService.exists_dict (cookieLine ([] ++ sentBack greetingCookie :: []))
  have hmessage := h.roundTrip _ _ _ [] [] _ _ _ _ _ hset
    (fun _ hmem => absurd hmem not_mem_nil) hcookie hbuilt
  have hlost : flashMessage greetingService.framework raw = none := by
    rw [flashMessage, if_pos (show greetingService.framework.flash = true from rfl), cookiesMap,
      hcookie]
    decide +kernel
  rw [get_flash hbuilt, hbelow, hlost] at hmessage
  cases hmessage

end M6.App
