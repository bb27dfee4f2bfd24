import Sotto.Core.Places
import Sotto.Library.Checked
import Sotto.Library.Numbers

/-!
# Ciphertexts are bound to their places

A separator ends each part of the associated data, and the ids do not have it, so the text of a
place determines the place. With an ideal cipher a ciphertext opens only at the place that it was
sealed at.
-/

namespace Sotto

namespace Places

open Text

/-! ### Texts of places -/

/-- What a ciphertext is sealed for. -/
inductive Place
  | dataKey (envId secretId : Id) (version : ℤ)
  | name (envId secretId : Id) (version : ℤ)
  | value (envId secretId : Id) (version : ℤ)
  | orgName (id : Id)
  | projectName (id : Id)
  | envName (id : Id)
deriving DecidableEq

def Place.aad : Place → List Char
  | .dataKey envId secretId version => dataKeyAad envId.1 secretId.1 version
  | .name envId secretId version => nameAad envId.1 secretId.1 version
  | .value envId secretId version => valueAad envId.1 secretId.1 version
  | .orgName id => orgAad id.1
  | .projectName id => projectAad id.1
  | .envName id => envAad id.1

/-- A text is determined by what is before and after the first separator. -/
theorem append_cons_inj {c : Char} {s s' t t' : List Char} (hs : c ∉ s) (hs' : c ∉ s')
    (h : s ++ c :: t = s' ++ c :: t') : s = s' ∧ t = t' := by
  have hsplit := congrArg (splitOnce c) h
  rw [splitOnce_append hs, splitOnce_append hs'] at hsplit
  exact Prod.mk.inj (Option.some.inj hsplit)

theorem not_mem_id (id : Id) : '|' ∉ id.1 := by
  intro h
  exact absurd (id.2 _ h) (by decide)

theorem secretAad_eq (kind : String) (envId secretId : List Char) (version : ℤ) :
    secretAad kind envId secretId version = "sotto/v1/".toList ++ (kind.toList ++ '|' ::
      ("env=".toList ++ (envId ++ '|' :: ("secret=".toList ++ (secretId ++ '|' ::
        ("ver=".toList ++ (toString version).toList)))))) := by
  have henv : "|env=".toList = '|' :: "env=".toList := rfl
  have hsecret : "|secret=".toList = '|' :: "secret=".toList := rfl
  have hver : "|ver=".toList = '|' :: "ver=".toList := rfl
  unfold secretAad
  simp only [henv, hsecret, hver, List.append_assoc, List.cons_append]

theorem recordAad_eq (kind : String) (id : List Char) : recordAad kind id =
    "sotto/v1/".toList ++ (kind.toList ++ '|' :: ("id=".toList ++ id)) := by
  have hid : "|id=".toList = '|' :: "id=".toList := rfl
  unfold recordAad
  simp only [hid, List.append_assoc, List.cons_append]

section Kinds

variable {kind kind' : String} {envId envId' secretId secretId' id id' : Id}
  {version version' : ℤ}

theorem secretAad_inj (hkind : '|' ∉ kind.toList) (hkind' : '|' ∉ kind'.toList)
    (h : secretAad kind envId.1 secretId.1 version =
      secretAad kind' envId'.1 secretId'.1 version') :
    kind = kind' ∧ envId = envId' ∧ secretId = secretId' ∧ version = version' := by
  rw [secretAad_eq, secretAad_eq] at h
  obtain ⟨hk, h⟩ := append_cons_inj hkind hkind' (List.append_cancel_left h)
  obtain ⟨he, h⟩ := append_cons_inj (not_mem_id envId) (not_mem_id envId')
    (List.append_cancel_left h)
  obtain ⟨hs, h⟩ := append_cons_inj (not_mem_id secretId) (not_mem_id secretId')
    (List.append_cancel_left h)
  exact ⟨String.toList_inj.mp hk, Subtype.ext he, Subtype.ext hs,
    Numbers.toString_injective (List.append_cancel_left h)⟩

theorem recordAad_inj (hkind : '|' ∉ kind.toList) (hkind' : '|' ∉ kind'.toList)
    (h : recordAad kind id.1 = recordAad kind' id'.1) : kind = kind' ∧ id = id' := by
  rw [recordAad_eq, recordAad_eq] at h
  obtain ⟨hk, h⟩ := append_cons_inj hkind hkind' (List.append_cancel_left h)
  exact ⟨String.toList_inj.mp hk, Subtype.ext (List.append_cancel_left h)⟩

theorem secretAad_ne_recordAad (hkind : '|' ∉ kind.toList) (hkind' : '|' ∉ kind'.toList) :
    secretAad kind envId.1 secretId.1 version ≠ recordAad kind' id.1 := by
  intro h
  rw [secretAad_eq, recordAad_eq] at h
  obtain ⟨-, h⟩ := append_cons_inj hkind hkind' (List.append_cancel_left h)
  exact absurd (List.cons.inj h).1 (by decide)

end Kinds

/-- The kind of a place and what else its text has. -/
def Place.parts : Place → (String × Id × Id × ℤ) ⊕ (String × Id)
  | .dataKey envId secretId version => .inl ("datakey", envId, secretId, version)
  | .name envId secretId version => .inl ("name", envId, secretId, version)
  | .value envId secretId version => .inl ("value", envId, secretId, version)
  | .orgName id => .inr ("org-name", id)
  | .projectName id => .inr ("project-name", id)
  | .envName id => .inr ("env-name", id)

theorem Place.parts_injective : Function.Injective Place.parts := by
  intro p q h
  cases p <;> cases q <;> simp_all [Place.parts]

theorem Place.parts_kind (p : Place) :
    (∀ kind envId secretId version, p.parts = .inl (kind, envId, secretId, version) →
      '|' ∉ kind.toList ∧ p.aad = secretAad kind envId.1 secretId.1 version) ∧
    ∀ kind id, p.parts = .inr (kind, id) → '|' ∉ kind.toList ∧ p.aad = recordAad kind id.1 := by
  refine ⟨fun kind envId secretId version h => ?_, fun kind id h => ?_⟩
  all_goals
    cases p <;> cases h
    all_goals exact ⟨by decide, rfl⟩

/-- The text of a place determines its kind, its ids and its version. -/
theorem Place.aad_injective : Function.Injective Place.aad := by
  intro p q h
  refine Place.parts_injective ?_
  rcases hp : p.parts with ⟨kind, envId, secretId, version⟩ | ⟨kind, id⟩
  · obtain ⟨hkind, haad⟩ := p.parts_kind.1 _ _ _ _ hp
    rcases hq : q.parts with ⟨kind', envId', secretId', version'⟩ | ⟨kind', id'⟩
    · obtain ⟨hkind', haad'⟩ := q.parts_kind.1 _ _ _ _ hq
      rw [haad, haad'] at h
      obtain ⟨rfl, rfl, rfl, rfl⟩ := secretAad_inj hkind hkind' h
      rfl
    · obtain ⟨hkind', haad'⟩ := q.parts_kind.2 _ _ hq
      rw [haad, haad'] at h
      exact absurd h (secretAad_ne_recordAad hkind hkind')
  · obtain ⟨hkind, haad⟩ := p.parts_kind.2 _ _ hp
    rcases hq : q.parts with ⟨kind', envId', secretId', version'⟩ | ⟨kind', id'⟩
    · obtain ⟨hkind', haad'⟩ := q.parts_kind.1 _ _ _ _ hq
      rw [haad, haad'] at h
      exact absurd h.symm (secretAad_ne_recordAad hkind' hkind)
    · obtain ⟨hkind', haad'⟩ := q.parts_kind.2 _ _ hq
      rw [haad, haad'] at h
      obtain ⟨rfl, rfl⟩ := recordAad_inj hkind hkind' h
      rfl

theorem Place.utf8_aad_inj {p q : Place} : utf8 p.aad = utf8 q.aad ↔ p = q :=
  utf8_injective.eq_iff.trans Place.aad_injective.eq_iff

/-! ### The ideal cipher -/

/-- What is encrypted is decrypted under its key, its nonce and its data and under no other, and
nothing else is decrypted. -/
structure Cipher.Ideal (cipher : Cipher) : Prop where
  decrypt_encrypt : ∀ key nonce message aad,
    cipher.decrypt key nonce (cipher.encrypt key nonce message aad) aad = some message
  decrypt_other : ∀ key key' nonce message aad aad', key' ≠ key ∨ aad' ≠ aad →
    cipher.decrypt key' nonce (cipher.encrypt key nonce message aad) aad' = none
  eq_encrypt : ∀ key nonce ciphertext aad message,
    cipher.decrypt key nonce ciphertext aad = some message →
      ciphertext = cipher.encrypt key nonce message aad

section Ideal

variable {cipher : Cipher} {nonce nonce' : Nonce} {key key' : Key} {aad aad' m m' : Bytes}

theorem parseEnvelope_seal : parseEnvelope («seal» cipher nonce key m aad) =
    .ok (nonce, cipher.encrypt key nonce m aad) := by
  have hlength : nonceLen ≤ (nonce.1 ++ cipher.encrypt key nonce m aad).length := by
    rw [List.length_append, nonce.2]
    exact Nat.le_add_right _ _
  have htake : (nonce.1 ++ cipher.encrypt key nonce m aad).take nonceLen = nonce.1 :=
    List.take_left' nonce.2
  have hdrop : (nonce.1 ++ cipher.encrypt key nonce m aad).drop nonceLen =
      cipher.encrypt key nonce m aad :=
    List.drop_left' nonce.2
  simp only [«seal», parseEnvelope, dif_pos hlength, ne_eq, not_true, or_self, if_false, htake,
    hdrop, Subtype.coe_eta]

theorem parseEnvelope_eq_ok {envelope ciphertext : Bytes}
    (h : parseEnvelope envelope = .ok (nonce, ciphertext)) :
    envelope = schemeV1 :: algXChaCha20Poly1305 :: (nonce.1 ++ ciphertext) := by
  unfold parseEnvelope at h
  split at h
  · split at h
    · split at h
      · cases h
      · next scheme alg rest _ hscheme =>
        rw [not_or, not_not, not_not] at hscheme
        obtain ⟨rfl, rfl⟩ := hscheme
        obtain ⟨rfl, rfl⟩ := Prod.mk.inj (Except.ok.inj h)
        rw [List.take_append_drop]
    · cases h
  · cases h

variable (hideal : cipher.Ideal)

include hideal

theorem open_seal_self : «open» cipher key («seal» cipher nonce key m aad) aad = .ok m := by
  rw [«open», parseEnvelope_seal]
  simp only [bind, Except.bind, hideal.decrypt_encrypt]

theorem open_seal_other (h : key' ≠ key ∨ aad' ≠ aad) :
    «open» cipher key' («seal» cipher nonce key m aad) aad' = .error .crypto := by
  rw [«open», parseEnvelope_seal]
  simp only [bind, Except.bind, hideal.decrypt_other _ _ _ _ _ _ h]

/-- Only what was sealed opens. -/
theorem open_eq_ok {envelope : Bytes} (h : «open» cipher key envelope aad = .ok m) :
    ∃ nonce, envelope = «seal» cipher nonce key m aad := by
  rw [«open», Checked.bind_eq_ok] at h
  obtain ⟨⟨nonce, ciphertext⟩, hparse, h⟩ := h
  refine ⟨nonce, ?_⟩
  cases hdecrypt : cipher.decrypt key nonce ciphertext aad with
  | none =>
    simp only [hdecrypt] at h
    cases h
  | some plaintext =>
    simp only [hdecrypt] at h
    obtain rfl := Except.ok.inj h
    rw [parseEnvelope_eq_ok hparse, hideal.eq_encrypt _ _ _ _ _ hdecrypt, «seal»]

theorem open_seal_eq_ok : «open» cipher key' («seal» cipher nonce key m aad) aad' = .ok m' ↔
    key' = key ∧ aad' = aad ∧ m' = m := by
  by_cases hplace : key' = key ∧ aad' = aad
  · obtain ⟨rfl, rfl⟩ := hplace
    rw [open_seal_self hideal, Except.ok.injEq]
    simp only [true_and, eq_comm]
  · rw [open_seal_other hideal (not_and_or.mp hplace)]
    refine iff_of_false (fun h => by cases h) fun h => hplace ⟨h.1, h.2.1⟩

end Ideal

/-! ### Secrets and names -/

/-- A ciphertext opens only under its key, and only at the place it was sealed at: the name and
the value of a secret under a data key of that place, and a display name at its record. -/
def BoundToPlace (cipher : Cipher) : Prop :=
  (∀ (nonce : Nonce) (key key' : Key) (m m' : Bytes) (p q : Place),
    «open» cipher key' («seal» cipher nonce key m (utf8 p.aad)) (utf8 q.aad) = .ok m' ↔
      key' = key ∧ q = p ∧ m' = m) ∧
  (∀ (nonce keyNonce : Nonce) (vaultKey vaultKey' dataKey dataKey' : Key) (envId secretId : Id)
    (version : ℤ) (m m' : Bytes) (p q : Place),
    (decryptName cipher vaultKey' envId.1 secretId.1 version
        («seal» cipher nonce dataKey m (utf8 p.aad))
        (wrapKey cipher keyNonce vaultKey dataKey' (utf8 q.aad)) = .ok m' ↔
      vaultKey' = vaultKey ∧ q = .dataKey envId secretId version ∧ dataKey' = dataKey ∧
        p = .name envId secretId version ∧ m' = m) ∧
    (decryptValue cipher vaultKey' envId.1 secretId.1 version
        («seal» cipher nonce dataKey m (utf8 p.aad))
        (wrapKey cipher keyNonce vaultKey dataKey' (utf8 q.aad)) = .ok m' ↔
      vaultKey' = vaultKey ∧ q = .dataKey envId secretId version ∧ dataKey' = dataKey ∧
        p = .value envId secretId version ∧ m' = m)) ∧
  (∀ (random : Randomness) (vaultKey vaultKey' : Key) (envId envId' secretId secretId' : Id)
    (version version' : ℤ) (name name' value value' : Bytes),
    let enc := encryptSecret cipher random vaultKey envId.1 secretId.1 version name value
    decryptSecret cipher vaultKey' envId'.1 secretId'.1 version' enc.encName enc.encValue
        enc.encDataKey = .ok (name', value') ↔
      vaultKey' = vaultKey ∧ envId' = envId ∧ secretId' = secretId ∧ version' = version ∧
        name' = name ∧ value' = value) ∧
  (∀ (nonce : Nonce) (key : Key) (id : Id) (m : Bytes),
    encryptOrgName cipher nonce key id.1 m =
      «seal» cipher nonce key m (utf8 (Place.orgName id).aad) ∧
    encryptProjectName cipher nonce key id.1 m =
      «seal» cipher nonce key m (utf8 (Place.projectName id).aad) ∧
    encryptEnvName cipher nonce key id.1 m =
      «seal» cipher nonce key m (utf8 (Place.envName id).aad)) ∧
  ∀ (nonce : Nonce) (key key' : Key) (id : Id) (m m' : Bytes) (p : Place),
    (decryptOrgName cipher key' id.1 («seal» cipher nonce key m (utf8 p.aad)) = .ok m' ↔
      key' = key ∧ p = .orgName id ∧ m' = m) ∧
    (decryptProjectName cipher key' id.1 («seal» cipher nonce key m (utf8 p.aad)) = .ok m' ↔
      key' = key ∧ p = .projectName id ∧ m' = m) ∧
    (decryptEnvName cipher key' id.1 («seal» cipher nonce key m (utf8 p.aad)) = .ok m' ↔
      key' = key ∧ p = .envName id ∧ m' = m)

/-- Decrypting a secret is decrypting its name and then its value. -/
def Agrees (cipher : Cipher) : Prop :=
  ∀ (vaultKey : Key) (envId secretId : List Char) (version : ℤ)
    (encName encValue encDataKey : Bytes),
    decryptSecret cipher vaultKey envId secretId version encName encValue encDataKey = do
      let name ← decryptName cipher vaultKey envId secretId version encName encDataKey
      let value ← decryptValue cipher vaultKey envId secretId version encValue encDataKey
      return (name, value)

/-- A data key that is rewrapped decrypts under the new key what it decrypted under the old one,
at each place, and under no other key. -/
def RewrapPreserves (cipher : Cipher) : Prop :=
  ∀ (nonce : Nonce) (oldKey newKey : Key) (envId secretId : Id) (version : ℤ)
    (encDataKey : Bytes),
    ((∃ rewrapped, rewrapDataKey cipher nonce oldKey newKey envId.1 secretId.1 version encDataKey =
        .ok rewrapped) ↔
      ∃ dataKey, unwrapDataKey cipher oldKey envId.1 secretId.1 version encDataKey =
        .ok dataKey) ∧
    ∀ rewrapped, rewrapDataKey cipher nonce oldKey newKey envId.1 secretId.1 version encDataKey =
        .ok rewrapped →
      (∀ (envId' secretId' : Id) (version' : ℤ) (encName encValue : Bytes),
        decryptName cipher newKey envId'.1 secretId'.1 version' encName rewrapped =
          decryptName cipher oldKey envId'.1 secretId'.1 version' encName encDataKey ∧
        decryptValue cipher newKey envId'.1 secretId'.1 version' encValue rewrapped =
          decryptValue cipher oldKey envId'.1 secretId'.1 version' encValue encDataKey ∧
        decryptSecret cipher newKey envId'.1 secretId'.1 version' encName encValue rewrapped =
          decryptSecret cipher oldKey envId'.1 secretId'.1 version' encName encValue
            encDataKey) ∧
      ∀ (key : Key) (envId' secretId' : Id) (version' : ℤ), key ≠ newKey →
        unwrapDataKey cipher key envId'.1 secretId'.1 version' rewrapped = .error .crypto

section Results

variable {cipher : Cipher}

/-- What is sealed at a place opens there under its key. -/
theorem open_place (hideal : cipher.Ideal) {nonce : Nonce} {key key' : Key} {m m' : Bytes}
    {p q : Place} :
    «open» cipher key' («seal» cipher nonce key m (utf8 p.aad)) (utf8 q.aad) = .ok m' ↔
      key' = key ∧ q = p ∧ m' = m := by
  rw [open_seal_eq_ok hideal, Place.utf8_aad_inj]

theorem unwrapDataKey_wrapKey (hideal : cipher.Ideal) {keyNonce : Nonce}
    {vaultKey vaultKey' dataKey dataKey' : Key} {envId secretId : Id} {version : ℤ} {q : Place} :
    unwrapDataKey cipher vaultKey' envId.1 secretId.1 version
        (wrapKey cipher keyNonce vaultKey dataKey (utf8 q.aad)) = .ok dataKey' ↔
      vaultKey' = vaultKey ∧ q = .dataKey envId secretId version ∧ dataKey' = dataKey := by
  have hopen := @open_place cipher hideal keyNonce vaultKey vaultKey' dataKey.1
  change unwrapKey cipher vaultKey' (wrapKey cipher keyNonce vaultKey dataKey (utf8 q.aad))
    (utf8 (Place.dataKey envId secretId version).aad) = .ok dataKey' ↔ _
  rw [unwrapKey, wrapKey, Checked.bind_eq_ok]
  simp only [hopen, eq_comm (a := q)]
  constructor
  · rintro ⟨plaintext, ⟨hkey, hplace, rfl⟩, h⟩
    rw [dif_pos dataKey.2] at h
    exact ⟨hkey, hplace, (Except.ok.inj h).symm⟩
  · rintro ⟨hkey, hplace, rfl⟩
    exact ⟨dataKey'.1, ⟨hkey, hplace, rfl⟩, dif_pos dataKey'.2⟩

/-- Decrypting a secret is decrypting its name and then its value. -/
theorem agrees (cipher : Cipher) : Agrees cipher := by
  intro vaultKey envId secretId version encName encValue encDataKey
  unfold decryptSecret decryptName decryptValue
  cases unwrapDataKey cipher vaultKey envId secretId version encDataKey with
  | error e => rfl
  | ok dataKey =>
    simp only [bind, Except.bind]
    cases «open» cipher dataKey encName (utf8 (nameAad envId secretId version)) with
    | error e => rfl
    | ok name =>
      cases «open» cipher dataKey encValue (utf8 (valueAad envId secretId version)) <;> rfl

section Fields

variable (hideal : cipher.Ideal) {nonce keyNonce : Nonce}
  {vaultKey vaultKey' dataKey dataKey' : Key} {envId secretId : Id} {version : ℤ} {m m' : Bytes}
  {p q : Place}

include hideal

/-- A field opens under the data key that it is sealed under. -/
theorem open_field (r : Place) :
    (do
      let key ← unwrapDataKey cipher vaultKey' envId.1 secretId.1 version
        (wrapKey cipher keyNonce vaultKey dataKey' (utf8 q.aad))
      «open» cipher key («seal» cipher nonce dataKey m (utf8 p.aad)) (utf8 r.aad)) = .ok m' ↔
      vaultKey' = vaultKey ∧ q = .dataKey envId secretId version ∧ dataKey' = dataKey ∧
        p = r ∧ m' = m := by
  rw [Checked.bind_eq_ok]
  constructor
  · rintro ⟨key, hkey, hopen⟩
    obtain ⟨hvault, hplace, rfl⟩ := (unwrapDataKey_wrapKey hideal).mp hkey
    obtain ⟨hdata, hfield, hm⟩ := (open_place hideal).mp hopen
    exact ⟨hvault, hplace, hdata, hfield.symm, hm⟩
  · rintro ⟨hvault, hplace, hdata, hfield, hm⟩
    exact ⟨dataKey', (unwrapDataKey_wrapKey hideal).mpr ⟨hvault, hplace, rfl⟩,
      (open_place hideal).mpr ⟨hdata, hfield.symm, hm⟩⟩

theorem decryptName_eq_ok :
    decryptName cipher vaultKey' envId.1 secretId.1 version
        («seal» cipher nonce dataKey m (utf8 p.aad))
        (wrapKey cipher keyNonce vaultKey dataKey' (utf8 q.aad)) = .ok m' ↔
      vaultKey' = vaultKey ∧ q = .dataKey envId secretId version ∧ dataKey' = dataKey ∧
        p = .name envId secretId version ∧ m' = m :=
  open_field hideal (.name envId secretId version)

theorem decryptValue_eq_ok :
    decryptValue cipher vaultKey' envId.1 secretId.1 version
        («seal» cipher nonce dataKey m (utf8 p.aad))
        (wrapKey cipher keyNonce vaultKey dataKey' (utf8 q.aad)) = .ok m' ↔
      vaultKey' = vaultKey ∧ q = .dataKey envId secretId version ∧ dataKey' = dataKey ∧
        p = .value envId secretId version ∧ m' = m :=
  open_field hideal (.value envId secretId version)

/-- A secret opens only at its place and under its vault key. -/
theorem decryptSecret_eq_ok (random : Randomness) {envId' secretId' : Id} {version' : ℤ}
    {name name' value value' : Bytes} :
    let enc := encryptSecret cipher random vaultKey envId.1 secretId.1 version name value
    decryptSecret cipher vaultKey' envId'.1 secretId'.1 version' enc.encName enc.encValue
        enc.encDataKey = .ok (name', value') ↔
      vaultKey' = vaultKey ∧ envId' = envId ∧ secretId' = secretId ∧ version' = version ∧
        name' = name ∧ value' = value := by
  intro enc
  have hname {m' : Bytes} := @decryptName_eq_ok cipher hideal random.nameNonce random.keyNonce
    vaultKey vaultKey' random.dataKey random.dataKey envId' secretId' version' name m'
    (.name envId secretId version) (.dataKey envId secretId version)
  have hvalue {m' : Bytes} := @decryptValue_eq_ok cipher hideal random.valueNonce random.keyNonce
    vaultKey vaultKey' random.dataKey random.dataKey envId' secretId' version' value m'
    (.value envId secretId version) (.dataKey envId secretId version)
  rw [agrees, Checked.bind_eq_ok]
  simp only [Checked.bind_eq_ok, Checked.pure_eq_ok, Prod.mk.injEq]
  constructor
  · rintro ⟨_, hn, _, hv, rfl, rfl⟩
    obtain ⟨hvault, hplace, -, -, rfl⟩ := hname.mp hn
    obtain ⟨-, -, -, -, rfl⟩ := hvalue.mp hv
    obtain ⟨rfl, rfl, rfl⟩ := Place.dataKey.inj hplace
    exact ⟨hvault, rfl, rfl, rfl, rfl, rfl⟩
  · rintro ⟨hvault, rfl, rfl, rfl, rfl, rfl⟩
    exact ⟨_, hname.mpr ⟨hvault, rfl, rfl, rfl, rfl⟩, _,
      hvalue.mpr ⟨hvault, rfl, rfl, rfl, rfl⟩, rfl, rfl⟩

end Fields

theorem boundToPlace (hideal : cipher.Ideal) : BoundToPlace cipher := by
  refine ⟨fun _ _ _ _ _ _ _ => open_place hideal, fun _ _ _ _ _ _ _ _ _ _ _ _ _ =>
    ⟨decryptName_eq_ok hideal, decryptValue_eq_ok hideal⟩, fun random _ _ _ _ _ _ _ _ _ _ _ _ =>
    decryptSecret_eq_ok hideal random, fun _ _ _ _ => ⟨rfl, rfl, rfl⟩, ?_⟩
  intro nonce key key' id m m' p
  have hopen (q : Place) := @open_place cipher hideal nonce key key' m m' p q
  simp only [eq_comm (b := p)] at hopen
  exact ⟨hopen (.orgName id), hopen (.projectName id), hopen (.envName id)⟩

/-- What a wrapped data key unwraps to under a key at a place. -/
theorem unwrapDataKey_eq (hideal : cipher.Ideal) (nonce : Nonce) (vaultKey vaultKey' dataKey : Key)
    (envId secretId : Id) (version : ℤ) (q : Place) :
    unwrapDataKey cipher vaultKey' envId.1 secretId.1 version
        (wrapKey cipher nonce vaultKey dataKey (utf8 q.aad)) =
      if vaultKey' = vaultKey ∧ q = .dataKey envId secretId version then .ok dataKey
      else .error .crypto := by
  split
  · next h => exact (unwrapDataKey_wrapKey hideal).mpr ⟨h.1, h.2, rfl⟩
  · next h =>
    have hother : vaultKey' ≠ vaultKey ∨
        utf8 (Place.dataKey envId secretId version).aad ≠ utf8 q.aad := by
      rw [Ne, Ne, Place.utf8_aad_inj, eq_comm (b := q)]
      exact not_and_or.mp h
    have hopen := @open_seal_other cipher nonce vaultKey vaultKey' (utf8 q.aad) _ dataKey.1 hideal
      hother
    change unwrapKey cipher vaultKey' («seal» cipher nonce vaultKey dataKey.1 (utf8 q.aad))
      (utf8 (Place.dataKey envId secretId version).aad) = _
    rw [unwrapKey, hopen]
    rfl

/-- What unwraps was wrapped at the place. -/
theorem unwrapDataKey_eq_ok (hideal : cipher.Ideal) {vaultKey dataKey : Key} {envId secretId : Id}
    {version : ℤ} {encDataKey : Bytes}
    (h : unwrapDataKey cipher vaultKey envId.1 secretId.1 version encDataKey = .ok dataKey) :
    ∃ nonce, encDataKey = wrapKey cipher nonce vaultKey dataKey
      (utf8 (Place.dataKey envId secretId version).aad) := by
  rw [unwrapDataKey, unwrapKey, Checked.bind_eq_ok] at h
  obtain ⟨plaintext, hopen, h⟩ := h
  split at h
  · obtain rfl := Except.ok.inj h
    exact open_eq_ok hideal hopen
  · cases h

theorem rewrapPreserves (hideal : cipher.Ideal) : RewrapPreserves cipher := by
  intro nonce oldKey newKey envId secretId version encDataKey
  constructor
  · simp only [rewrapDataKey, Checked.bind_eq_ok, Checked.pure_eq_ok]
    constructor
    · rintro ⟨_, dataKey, hdataKey, -⟩
      exact ⟨dataKey, hdataKey⟩
    · rintro ⟨dataKey, hdataKey⟩
      exact ⟨_, dataKey, hdataKey, rfl⟩
  · intro rewrapped h
    rw [rewrapDataKey, Checked.bind_eq_ok] at h
    obtain ⟨dataKey, hdataKey, h⟩ := h
    obtain ⟨nonce', rfl⟩ := unwrapDataKey_eq_ok hideal hdataKey
    obtain rfl : wrapKey cipher nonce newKey dataKey
        (utf8 (Place.dataKey envId secretId version).aad) = rewrapped := Checked.pure_eq_ok.mp h
    have hsame (envId' secretId' : Id) (version' : ℤ) :
        unwrapDataKey cipher newKey envId'.1 secretId'.1 version' (wrapKey cipher nonce newKey
            dataKey (utf8 (Place.dataKey envId secretId version).aad)) =
          unwrapDataKey cipher oldKey envId'.1 secretId'.1 version' (wrapKey cipher nonce' oldKey
            dataKey (utf8 (Place.dataKey envId secretId version).aad)) := by
      rw [unwrapDataKey_eq hideal, unwrapDataKey_eq hideal]
      simp only [true_and]
    refine ⟨fun envId' secretId' version' encName encValue => ⟨?_, ?_, ?_⟩,
      fun key envId' secretId' version' hkey => ?_⟩
    · rw [decryptName, decryptName, hsame]
    · rw [decryptValue, decryptValue, hsame]
    · rw [decryptSecret, decryptSecret, hsame]
    · rw [unwrapDataKey_eq hideal, if_neg fun h => hkey h.1]

/-! ### A cipher that is ideal -/

/-- The key, the nonce and the data, which the length of the data is before. -/
def header (key : Key) (nonce : Nonce) (aad : Bytes) : Bytes :=
  key.1 ++ (nonce.1 ++ (List.replicate aad.length 1 ++ 0 :: aad))

/-- The cipher that writes the message after its header. -/
def headerCipher : Cipher where
  encrypt key nonce message aad := header key nonce aad ++ message
  decrypt key nonce ciphertext aad :=
    if header key nonce aad <+: ciphertext then
      some (ciphertext.drop (header key nonce aad).length)
    else none

theorem replicate_append_inj {n n' : ℕ} {s s' : Bytes}
    (h : List.replicate n (1 : UInt8) ++ 0 :: s = List.replicate n' 1 ++ 0 :: s') :
    n = n' ∧ s = s' := by
  induction n generalizing n' with
  | zero =>
    cases n' with
    | zero => exact ⟨rfl, (List.cons.inj h).2⟩
    | succ n' => exact absurd (List.cons.inj h).1 (by decide)
  | succ n ih =>
    cases n' with
    | zero => exact absurd (List.cons.inj h).1 (by decide)
    | succ n' =>
      obtain ⟨rfl, hs⟩ := ih (List.cons.inj h).2
      exact ⟨rfl, hs⟩

/-- A header is at the start of one text only. -/
theorem header_inj {key key' : Key} {nonce nonce' : Nonce} {aad aad' m m' : Bytes}
    (h : header key nonce aad ++ m = header key' nonce' aad' ++ m') : key = key' ∧ aad = aad' := by
  simp only [header, List.append_assoc, List.cons_append] at h
  obtain ⟨hkey, h⟩ := List.append_inj h (key.2.trans key'.2.symm)
  obtain ⟨-, h⟩ := List.append_inj h (nonce.2.trans nonce'.2.symm)
  obtain ⟨hlength, h⟩ := replicate_append_inj h
  exact ⟨Subtype.ext hkey, (List.append_inj h hlength).1⟩

theorem headerCipher_ideal : headerCipher.Ideal where
  decrypt_encrypt key nonce message aad := by
    simp [headerCipher]
  decrypt_other key key' nonce message aad aad' hother := by
    refine if_neg ?_
    rintro ⟨rest, hrest⟩
    obtain ⟨hkey, haad⟩ := header_inj hrest
    exact hother.elim (fun h => h hkey) fun h => h haad
  eq_encrypt key nonce ciphertext aad message h := by
    simp only [headerCipher] at h ⊢
    split at h
    · next hprefix =>
      obtain ⟨rest, rfl⟩ := hprefix
      rw [List.drop_left] at h
      rw [Option.some.inj h]
    · cases h

/-- The texts of places determine the places, and so ciphertexts are bound to their places. -/
theorem places_bound (hideal : cipher.Ideal) :
    Function.Injective Place.aad ∧ BoundToPlace cipher ∧ Agrees cipher ∧
      RewrapPreserves cipher :=
  ⟨Place.aad_injective, boundToPlace hideal, agrees cipher, rewrapPreserves hideal⟩

theorem places_bound_header :
    Function.Injective Place.aad ∧ BoundToPlace headerCipher ∧ Agrees headerCipher ∧
      RewrapPreserves headerCipher :=
  places_bound headerCipher_ideal

end Results

end Places

end Sotto
