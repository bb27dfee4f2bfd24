import Sotto.Properties.Places
import Sotto.Properties.Shares
import Sotto.Share.Page

/-!
# What a share link reveals

A link is built from the key that its secret is sealed under, so the page that follows it opens what
the server answers a fetch with: the secret, if the passphrase is the sender's. A link that was made
with an empty passphrase opens with none.
-/

namespace Sotto

namespace Share

open Places (Key Nonce Cipher keyLen)
open Text

/-! ### Base64 texts of the page -/

theorem fromUrlSafe_symbol : ∀ n < 64, fromUrlSafe (urlSafe.symbol n) = standard.symbol n := by
  decide +kernel

theorem not_blank : ∀ c ∈ standard.symbols, Radix64.isAsciiBlank c = false := by
  have hall : (standard.symbols.all fun c => !Radix64.isAsciiBlank c) = true := by decide +kernel
  simpa using hall

theorem padToFour_encode (bytes : Bytes) :
    padToFour (Radix64.encode standard false bytes) = Radix64.encode standard true bytes := by
  obtain ⟨p, hp, hle, hlength⟩ := Radix64.exists_padding (A := standard) bytes
  have hcount : (4 - (Radix64.encode standard false bytes).length % 4) % 4 = p := by
    rw [hp, List.length_append, List.length_replicate] at hlength
    omega
  rw [padToFour, hcount, hp]

section Decode

variable (browser : Browser) (bytes : Bytes)

theorem standardB64ToBytes_encode : standardB64ToBytes browser (encode bytes) = .ok bytes := by
  rw [standardB64ToBytes, encode, Radix64.decodeForgiving_encode not_blank]

/-- The page reads the key that the client wrote. -/
theorem urlSafeB64ToBytes_encode :
    urlSafeB64ToBytes browser (Radix64.encode urlSafe false bytes) = .ok bytes := by
  rw [urlSafeB64ToBytes, Radix64.map_encode fromUrlSafe_symbol, padToFour_encode]
  exact standardB64ToBytes_encode browser bytes

end Decode

/-! ### Addresses -/

/-- The letters, the digits and the signs of addresses that no parser changes. -/
def isPlain (c : Char) : Bool :=
  c.toNat < 128 && (c.isAlphanum || c = '-' || c = '_')

/-- The browser goes to an address on an origin as it is written. -/
def Browser.Opens (browser : Browser) (origin : List Char) : Prop :=
  ∀ path fragment : List Char, path.head? = some '/' → (∀ c ∈ path, isPlain c ∨ c = '/') →
    fragment ≠ [] → (∀ c ∈ fragment, isPlain c) →
      browser.location (origin ++ path ++ '#' :: fragment) = some ⟨path, '#' :: fragment⟩

theorem isPlain_urlSafe : ∀ c ∈ urlSafe.symbols, isPlain c = true :=
  List.all_eq_true.1 (by decide +kernel)

/-- The digits of tokens. -/
def hexDigits : List Char := "0123456789abcdef".toList

theorem hexDigits_plain : ∀ c ∈ hexDigits, isPlain c = true ∧ isUnreserved c = true ∧ c ≠ '/' ∧
    c ≠ '%' := by
  have hall : (hexDigits.all fun c => decide (isPlain c = true ∧ isUnreserved c = true ∧ c ≠ '/' ∧
      c ≠ '%')) = true := by decide +kernel
  exact fun c hc => of_decide_eq_true (List.all_eq_true.1 hall c hc)

theorem mem_hexDigits {raw : Bytes} {c : Char} (h : c ∈ randomToken raw) : c ∈ hexDigits := by
  have hdigit : ∀ n < 16, Auth.hexDigit n ∈ hexDigits := by decide
  rw [randomToken, Auth.toHex, String.toList_ofList, List.mem_flatMap] at h
  obtain ⟨b, -, h⟩ := h
  have hb := b.toNat_lt
  simp only [List.mem_cons, List.not_mem_nil, or_false] at h
  rcases h with rfl | rfl
  · exact hdigit _ (by omega)
  · exact hdigit _ (by omega)

theorem randomToken_ne_nil {raw : Bytes} (h : raw ≠ []) : randomToken raw ≠ [] := by
  obtain ⟨b, raw, rfl⟩ := List.exists_cons_of_ne_nil h
  rw [randomToken, Auth.toHex, String.toList_ofList]
  exact List.cons_ne_nil _ _

/-- The segments that are the whole rest of a path. -/
theorem filter_segment {segment : List Char} (hne : segment ≠ []) (hslash : '/' ∉ segment) :
    (some segment).filter (fun segment => segment ≠ [] && '/' ∉ segment) = some segment := by
  rw [Option.filter_some, if_pos]
  simp only [hne, hslash, ne_eq, not_false_eq_true, decide_true, Bool.and_self]

theorem stripPrefix_append (pre s : List Char) : stripPrefix pre (pre ++ s) = some s := by
  rw [stripPrefix, if_pos (List.isPrefixOf_iff_prefix.2 (List.prefix_append _ _)),
    List.drop_left]

theorem encode_key_ne_nil (key : Key) : Radix64.encode urlSafe false key.1 ≠ [] := by
  intro hempty
  have hread := Radix64.decodeSymbols_encode (A := urlSafe) key.1
  have hkey := key.2
  rw [hempty] at hread
  rw [← Option.some.inj hread] at hkey
  exact absurd hkey (by decide)

section Tokens

variable {token : List Char} (hhex : ∀ c ∈ token, c ∈ hexDigits) (hne : token ≠ [])

include hhex hne

/-- A link goes to the page of its token. -/
theorem route_token : route ("/s/".toList ++ token) = .recipient token := by
  have hslash : '/' ∉ token := fun h => (hexDigits_plain _ (hhex _ h)).2.2.1 rfl
  have hpercent : '%' ∉ token := fun h => (hexDigits_plain _ (hhex _ h)).2.2.2 rfl
  have hsegment : shareSegment ("/s/".toList ++ token) = some token := by
    rw [shareSegment, stripPrefix_append, filter_segment hne hslash]
  have hvault : ¬ ("/s/".toList ++ token = "/app".toList ∨
      "/s/".toList ++ token = "/app/".toList) := by
    rintro (h | h)
    · cases (List.cons.inj (List.cons.inj h).2).1
    · cases (List.cons.inj (List.cons.inj h).2).1
  rw [route, if_neg hvault, hsegment]
  simp only [decodeURIComponent_of_not_mem hpercent]

/-- The page requests its token. -/
theorem requestOf_fetchPath : requestOf (fetchPath token) = some (.fetch token) := by
  have hsame : encodeURIComponent token = token := by
    rw [encodeURIComponent]
    refine (List.flatMap_congr fun c hc => ?_).trans (List.flatMap_singleton' token)
    rw [if_pos (hexDigits_plain _ (hhex c hc)).2.1]
  have hslash : '/' ∉ token := fun h => (hexDigits_plain _ (hhex _ h)).2.2.1 rfl
  have hbytes : unescape token = utf8 token := by
    have h := unescape_encodeURIComponent token
    rwa [hsame] at h
  have hpath : fetchPath token = "/shares/".toList ++ token := congrArg _ hsame
  rw [hpath, requestOf, stripPrefix_append, filter_segment hne hslash, Option.bind_eq_bind,
    Option.bind_some, hbytes, fromUtf8_utf8]
  rfl

omit hne in
/-- A browser that follows a link reads its path and its fragment. -/
theorem location_buildLink {browser : Browser} {webBase : List Char}
    (hbrowser : browser.Opens (webBase.rdropWhile (· = '/'))) (key : Key) :
    browser.location (buildLink webBase token key.1) =
      some ⟨"/s/".toList ++ token, '#' :: Radix64.encode urlSafe false key.1⟩ := by
  refine hbrowser _ _ rfl ?_ ?_ ?_
  · intro c hc
    rcases List.mem_append.1 hc with hc | hc
    · have hplain : ("/s/".toList.all fun c => decide (isPlain c ∨ c = '/')) = true := by decide
      exact of_decide_eq_true (List.all_eq_true.1 hplain c hc)
    · exact .inl (hexDigits_plain c (hhex c hc)).1
  · exact encode_key_ne_nil key
  · exact fun c hc => isPlain_urlSafe c (Radix64.mem_symbols_of_mem_encode hc)

end Tokens

/-! ### Keys -/

/-- Two passphrases do not give one key by accident. -/
def Crypto.Separates (crypto : Crypto) (draws : Draws) (passphrase passphrase' : Bytes) : Prop :=
  ∀ key, passphraseKey crypto draws.fragmentKey passphrase draws.salt = .ok key →
    passphraseKey crypto draws.fragmentKey passphrase' draws.salt = .ok key →
      passphrase = passphrase'

section Keys

variable {crypto : Crypto} {browser : Browser} {draws : Draws} {key : Key} {value : Bytes}

theorem key32_key (key : Key) : key32 key.1 = .ok key := dif_pos key.2

theorem salt16_salt (salt : Salt) : salt16 salt.1 = .ok salt := dif_pos salt.2

theorem thrownOf_eq_ok {α : Type} {r : Except Places.Error α} {a : α} :
    thrownOf r = .ok a ↔ r = .ok a :=
  Checked.mapError_eq_ok

/-- The key of a page is that of the client if the passphrase is. -/
theorem revealKey_eq_ok {passphrase : Option Bytes} {typed : List Char}
    (hseparates : ∀ p ∈ passphrase, crypto.Separates draws (utf8 typed) p)
    (hkey : aeadKey crypto draws passphrase = .ok key) :
    revealKey crypto draws.fragmentKey.1 typed (passphrase.map fun _ => draws.salt.1) = .ok key.1 ↔
      ∀ p ∈ passphrase, typed ≠ [] ∧ utf8 typed = p := by
  cases passphrase with
  | none =>
    cases hkey
    simp [revealKey]
  | some p =>
    have hderived : passphraseKey crypto draws.fragmentKey p draws.salt = .ok key :=
      Checked.mapError_eq_ok.1 hkey
    simp only [Option.map_some, Option.mem_some_iff, forall_eq']
    rw [revealKey]
    split
    · next hempty => exact iff_of_false nofun fun h => h.1 hempty
    · next hne =>
      rw [sharePassphraseKey, salt16_salt, key32_key]
      simp only [Checked.bind_eq_ok, Checked.pure_eq_ok, Except.ok.injEq, exists_eq_left',
        thrownOf_eq_ok, hne, ne_eq, not_false_eq_true, true_and]
      constructor
      · rintro ⟨key', hkey', heq⟩
        obtain rfl : key' = key := Subtype.ext heq
        exact hseparates p rfl _ hkey' hderived
      · rintro rfl
        exact ⟨key, hderived, rfl⟩

/-- Only the key of a link opens it. -/
theorem shareOpen_eq_ok (hideal : crypto.cipher.Ideal) {bytes plaintext : Bytes} :
    shareOpen crypto bytes («seal» crypto draws.nonce key value) = .ok plaintext ↔
      bytes = key.1 ∧ plaintext = value := by
  rw [shareOpen]
  by_cases hlength : bytes.length = keyLen
  · rw [key32, dif_pos hlength, Checked.bind_of_ok rfl, thrownOf_eq_ok, «open», «seal»,
      Places.open_seal_eq_ok hideal]
    simp only [Subtype.ext_iff, true_and]
  · rw [key32, dif_neg hlength]
    refine iff_of_false nofun ?_
    rintro ⟨rfl, -⟩
    exact hlength key.2

theorem encode_ne_nil {salt : Salt} : encode salt.1 ≠ [] := by
  intro hempty
  have hread := Radix64.decode_encode (A := standard) salt.1
  have hsalt := salt.2
  rw [encode] at hempty
  rw [hempty] at hread
  rw [← Option.some.inj hread] at hsalt
  exact absurd hsalt (by decide)

/-- What was posted is what the page reads. -/
theorem share_newShare {opts : ShareOptions} :
    (Answer.ok (newShare crypto draws key value opts).encBlob
        (newShare crypto draws key value opts).passphraseSalt).share browser =
      .ok («seal» crypto draws.nonce key value, opts.passphrase.map fun _ => draws.salt.1) := by
  have hsalt : encode draws.salt.1 ≠ [] := encode_ne_nil
  simp only [newShare, Answer.share, standardB64ToBytes_encode]
  cases opts.passphrase with
  | none => rfl
  | some p =>
    rw [Option.map_some, Option.filter_some, if_pos (decide_eq_true hsalt), Option.mapM_some,
      standardB64ToBytes_encode]
    rfl

theorem reveal_iff_secretOf {hash typed secret : List Char} {wasm : Except Thrown Unit}
    {answer : Answer} : reveal crypto browser hash typed wasm answer = .revealed secret ↔
      secretOf crypto browser hash typed wasm answer = .ok secret := by
  rw [reveal]
  cases secretOf crypto browser hash typed wasm answer with
  | ok s => simp
  | error e => simp

/-- A page reveals the secret of its link, if the passphrase is the sender's and not empty. -/
theorem reveal_eq_revealed (hideal : crypto.cipher.Ideal) {opts : ShareOptions}
    (hkey : aeadKey crypto draws opts.passphrase = .ok key) {typed secret : List Char}
    (hseparates : ∀ p ∈ opts.passphrase, crypto.Separates draws (utf8 typed) p) :
    reveal crypto browser ('#' :: Radix64.encode urlSafe false draws.fragmentKey.1) typed (.ok ())
        (.ok (newShare crypto draws key value opts).encBlob
          (newShare crypto draws key value opts).passphraseSalt) = .revealed secret ↔
      secret = textDecode value ∧ ∀ p ∈ opts.passphrase, typed ≠ [] ∧ utf8 typed = p := by
  have hfragment : Radix64.encode urlSafe false draws.fragmentKey.1 ≠ [] :=
    encode_key_ne_nil draws.fragmentKey
  have hsecret : secretOf crypto browser ('#' :: Radix64.encode urlSafe false draws.fragmentKey.1)
      typed (.ok ()) (.ok (newShare crypto draws key value opts).encBlob
        (newShare crypto draws key value opts).passphraseSalt) = (do
      let k ← revealKey crypto draws.fragmentKey.1 typed (opts.passphrase.map fun _ => draws.salt.1)
      let plaintext ← shareOpen crypto k («seal» crypto draws.nonce key value)
      return textDecode plaintext) := by
    rw [secretOf, List.drop_one, List.tail_cons, if_neg hfragment, urlSafeB64ToBytes_encode,
      share_newShare]
    rfl
  rw [reveal_iff_secretOf, hsecret]
  simp only [Checked.bind_eq_ok, Checked.pure_eq_ok, shareOpen_eq_ok hideal]
  rw [← revealKey_eq_ok hseparates hkey]
  constructor
  · rintro ⟨k, hk, plaintext, ⟨rfl, rfl⟩, rfl⟩
    exact ⟨rfl, hk⟩
  · rintro ⟨rfl, hk⟩
    exact ⟨_, hk, _, ⟨rfl, rfl⟩, rfl⟩

end Keys

/-! ### Links of a history -/

section Histories

variable {ι : Type} [DecidableEq ι] {w₀ w : Requests ι}

/-- What the server answers a client that posts: what a request of the history was answered. -/
def AnsweredIn (log : Log ι) (api : CreateShare → Except Cli.Error (List Char × Option ℤ)) : Prop :=
  ∀ body token expiresAt, api body = .ok (token, expiresAt) →
    ∃ c ∈ log, (∃ userId, c.op = .create userId body) ∧
      c.cmd = .respond (.ok (.created token expiresAt))

/-- The token of a link consists of digits. -/
theorem digits_of_created {log : Log ι} {t₀ now : ℤ} {db₀ db : Db}
    (h : service.Run Issues db₀ t₀ log now db) {c : Event ι Cmd.Reply Op} (hc : c ∈ log)
    {token : List Char} {expiresAt : Option ℤ}
    (hcreated : c.cmd = .respond (.ok (.created token expiresAt))) :
    (∀ d ∈ token, d ∈ hexDigits) ∧ token ≠ [] := by
  obtain ⟨l, hl, hissued⟩ := h.issued hc
  rw [hcreated] at hissued
  obtain ⟨userId, body, token', content, row, -, -, hinsert, rfl⟩ := hissued
  obtain ⟨g, hg, -, hinserted⟩ := mem_own.1 (hl _ hinsert)
  have hcmd : g.cmd = .insertShare token' content := congrArg Sigma.fst hinserted
  obtain ⟨l', hl', hissued'⟩ := h.issued hg
  rw [hcmd] at hissued'
  obtain ⟨-, -, raw, -, -, hrandom, rfl⟩ := hissued'
  rw [created_token h hg hinserted]
  refine ⟨fun d hd => mem_hexDigits hd, randomToken_ne_nil ?_⟩
  obtain ⟨f, hf, -, hdrawn⟩ := mem_own.1 (hl' _ hrandom)
  exact List.ne_nil_of_length_pos (by rw [drawn_length h hf hdrawn]; decide)

/-- A link goes to the page of a token, and for whatever the page is answered in the history with,
it reveals the value that was shared, if the passphrase is the sender's and not empty. -/
theorem revealed_as_shared {crypto : Crypto} (hideal : crypto.cipher.Ideal) {browser : Browser}
    {webBase link : List Char}
    (hbrowser : browser.Opens (webBase.rdropWhile (· = '/')))
    (hopening : Service.Opening w₀) (hempty : ∀ token, w₀.shared.state.lookup token = none)
    (h : service.system.Reaches w₀ w)
    {api : CreateShare → Except Cli.Error (List Char × Option ℤ)}
    (hapi : AnsweredIn w.shared.log api) {draws : Draws} {value : Bytes} {opts : ShareOptions}
    (hcreate : create crypto api draws webBase value opts = .ok link) :
    ∃ token location, browser.location link = some location ∧
      route location.pathname = .recipient token ∧
      requestOf (fetchPath token) = some (.fetch token) ∧
      ∀ e ∈ w.shared.log, e.op = .fetch token → ∀ encBlob salt,
        answered (reply e) = some (encBlob, salt) → ∀ typed secret,
          (∀ p ∈ opts.passphrase, crypto.Separates draws (utf8 typed) p) →
          (reveal crypto browser location.hash typed (.ok ()) (.ok encBlob salt) =
              .revealed secret ↔
            secret = textDecode value ∧ ∀ p ∈ opts.passphrase, typed ≠ [] ∧ utf8 typed = p) := by
  have hrun := Service.run_of_reaches service_traces hopening h
  rw [create, Checked.bind_eq_ok] at hcreate
  obtain ⟨-, -, hcreate⟩ := hcreate
  obtain ⟨key, hkey, hcreate⟩ := Checked.bind_eq_ok.1 hcreate
  obtain ⟨⟨token, expiresAt⟩, hposted, hlink⟩ := Checked.bind_eq_ok.1 hcreate
  obtain rfl := Checked.pure_eq_ok.1 hlink
  obtain ⟨c, hc, ⟨userId, hop⟩, hcreated⟩ := hapi _ _ _ hposted
  obtain ⟨hhex, hne⟩ := digits_of_created hrun hc hcreated
  refine ⟨token, _, location_buildLink hhex hbrowser draws.fragmentKey, route_token hhex hne,
    requestOf_fetchPath hhex hne, ?_⟩
  intro e he hfetch encBlob salt hanswer typed secret hseparates
  obtain ⟨userId', body, hop', rfl, rfl⟩ :=
    posted_of_answered hempty hrun hc hcreated he hfetch hanswer
  obtain ⟨-, rfl⟩ := Op.create.inj (hop.symm.trans hop')
  exact reveal_eq_revealed hideal hkey hseparates

end Histories

/-! ### A secret that is shared with a passphrase -/

namespace Trial

/-- A key of bytes. -/
def keyOf (bytes : Bytes) : Key :=
  ⟨(bytes ++ List.replicate keyLen 0).take keyLen, by simp⟩

def crypto : Crypto where
  cipher := Places.headerCipher
  pwhash password _ := .ok (keyOf password)
  genericHash message key := .ok (keyOf (key.1 ++ message)).1

/-- The path and the fragment after a host. -/
def locationOf (tail : List Char) : Location :=
  ⟨tail.takeWhile (· ≠ '#'), tail.dropWhile (· ≠ '#')⟩

/-- An address of a scheme, a host, a path and a fragment. -/
def location (link : List Char) : Option Location :=
  (stripPrefix "https://".toList link).map fun rest => locationOf (rest.dropWhile (· ≠ '/'))

def browser : Browser := ⟨location, "InvalidCharacterError".toList⟩

def webBase : List Char := "https://sotto.test/".toList

theorem opens : browser.Opens (webBase.rdropWhile (· = '/')) := by
  intro path fragment hhead hpath _ _
  obtain ⟨path, rfl⟩ := List.head?_eq_some_iff.1 hhead
  have horigin : webBase.rdropWhile (· = '/') = "https://".toList ++ "sotto.test".toList := by
    decide
  have hhash : ∀ c ∈ '/' :: path, c ≠ '#' := by
    rintro c hc rfl
    exact absurd (hpath _ hc) (by decide)
  have hdrop : ("sotto.test".toList ++ ('/' :: path ++ '#' :: fragment)).dropWhile (· ≠ '/') =
      '/' :: path ++ '#' :: fragment := by
    rw [List.dropWhile_append_of_pos (List.all_eq_true.1 (by decide))]
    exact List.dropWhile_cons_of_neg (by decide)
  have hall : ∀ c ∈ '/' :: path, decide (c ≠ '#') = true := fun c hc => decide_eq_true (hhash c hc)
  rw [show browser.location = location from rfl, horigin, location, List.append_assoc,
    List.append_assoc, stripPrefix_append, Option.map_some, hdrop, locationOf, List.takeWhile_append_of_pos hall,
    List.dropWhile_append_of_pos hall]
  simp

def draws : Draws := ⟨keyOf [1, 2, 3], ⟨List.replicate saltLen 7, rfl⟩, ⟨List.replicate 24 9, rfl⟩⟩

def value : Bytes := utf8 "postgres://db".toList

def opts : ShareOptions := ⟨1, some 60, some (utf8 "pw".toList)⟩

/-- What is posted. -/
def posted : CreateShare :=
  newShare crypto draws (keyOf (utf8 "pw".toList)) value opts

def api (body : CreateShare) : Except Cli.Error (List Char × Option ℤ) :=
  if body = posted then .ok (token, some 60) else .error .crypto

def sharing : List (ℕ × Op × ℤ) :=
  [(0, .create (.text "alice") posted, 0), (1, .fetch token, 5)]

theorem reaches_sharing : ∃ w, service.system.Reaches opening w ∧
    w.shared = backend.serveAll sharing opening.shared :=
  Service.Backend.reaches_serveAll (fun _ _ => ⟨rfl, rfl⟩) (by decide) (by decide +kernel)

theorem create_posted : create crypto api draws webBase value opts =
    .ok (buildLink webBase token draws.fragmentKey.1) := by
  have hkey : aeadKey crypto draws opts.passphrase = .ok (keyOf (utf8 "pw".toList)) := rfl
  have hoptions : checkOptions opts = .ok () := rfl
  have hanswer : api (newShare crypto draws (keyOf (utf8 "pw".toList)) value opts) =
      .ok (token, some 60) := if_pos rfl
  rw [create, hoptions, Checked.bind_of_ok rfl, hkey, Checked.bind_of_ok rfl, hanswer]
  rfl

/-- The token that a request has answered with. -/
def created : (Σ c : Cmd, c.Reply) → Option (List Char × Option ℤ)
  | ⟨.respond (.ok (.created token expiresAt)), _⟩ => some (token, expiresAt)
  | _ => none

theorem cmd_of_created {e : Event ℕ Cmd.Reply Op} {r : List Char × Option ℤ}
    (h : created (reply e) = some r) : e.cmd = .respond (.ok (.created r.1 r.2)) := by
  unfold created at h
  split at h
  · next heq =>
    cases h
    exact congrArg Sigma.fst heq
  · cases h

end Trial

/-- A link that is made with a passphrase reveals its secret to those who type it. -/
theorem revealed_as_shared_once : ∃ w, service.system.Reaches Trial.opening w ∧
    ∃ link location, create Trial.crypto Trial.api Trial.draws Trial.webBase Trial.value
          Trial.opts = .ok link ∧ Trial.browser.location link = some location ∧
      ∃ e ∈ w.shared.log, ∃ encBlob salt, answered (reply e) = some (encBlob, salt) ∧
        reveal Trial.crypto Trial.browser location.hash "pw".toList (.ok ()) (.ok encBlob salt) =
          .revealed "postgres://db".toList := by
  obtain ⟨w, hreach, hw⟩ := Trial.reaches_sharing
  have hany : (w.shared.log.any fun e =>
      decide (e.op = .create (.text "alice") Trial.posted ∧
        Trial.created (reply e) = some (Trial.token, some 60))) = true := by
    rw [hw]
    decide +kernel
  obtain ⟨c, hc, hcreated⟩ := List.any_eq_true.1 hany
  obtain ⟨hop, hcreated⟩ := of_decide_eq_true hcreated
  have hapi : AnsweredIn w.shared.log Trial.api := by
    intro body token expiresAt h
    rw [Trial.api] at h
    split at h
    · next hbody =>
      subst hbody
      cases h
      exact ⟨c, hc, ⟨_, hop⟩, Trial.cmd_of_created hcreated⟩
    · cases h
  obtain ⟨token, location, hlocation, hroute, -, hreveal⟩ :=
    revealed_as_shared Places.headerCipher_ideal Trial.opens Trial.opening_opening (fun _ => rfl)
      hreach hapi Trial.create_posted
  have hfetched : (w.shared.log.any fun e => decide (e.op = .fetch Trial.token ∧
      answered (reply e) = some (Trial.posted.encBlob, Trial.posted.passphraseSalt))) = true := by
    rw [hw]
    decide +kernel
  obtain ⟨e, he, hanswer⟩ := List.any_eq_true.1 hfetched
  obtain ⟨hfetch, hanswer⟩ := of_decide_eq_true hanswer
  have htoken : token = Trial.token := by
    have hhex : ∀ c ∈ Trial.token, c ∈ hexDigits := fun c hc => mem_hexDigits hc
    rw [location_buildLink hhex Trial.opens] at hlocation
    rw [← Option.some.inj hlocation, route_token hhex (randomToken_ne_nil (by decide))] at hroute
    exact (Route.recipient.inj hroute).symm
  refine ⟨w, hreach, _, location, Trial.create_posted, hlocation, e, he, _, _, hanswer, ?_⟩
  refine (hreveal e he (htoken ▸ hfetch) _ _ hanswer _ _ ?_).2 ⟨?_, ?_⟩
  · rintro p hp key - -
    exact Option.some.inj hp
  · rw [Trial.value, textDecode_utf8, if_neg (by decide)]
  · rintro p hp
    exact ⟨by decide, Option.some.inj hp⟩

end Share

end Sotto
